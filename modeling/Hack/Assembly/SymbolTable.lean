import Std.Data.TreeMap
import Hack.Error
import Hack.Word

namespace Hack.Assembly

/-! The addresses that names stand for.

A table starts with the predefined names.  Labels are bound to instruction
numbers; every other name is a variable and gets the next free memory cell
when it is first looked up.  A name keeps the address it has.
-/

def predefined : List (String × Nat) :=
  [("SP", 0), ("LCL", 1), ("ARG", 2), ("THIS", 3), ("THAT", 4),
   ("R0", 0), ("R1", 1), ("R2", 2), ("R3", 3), ("R4", 4), ("R5", 5), ("R6", 6), ("R7", 7),
   ("R8", 8), ("R9", 9), ("R10", 10), ("R11", 11), ("R12", 12), ("R13", 13), ("R14", 14),
   ("R15", 15), ("SCREEN", 16384), ("KBD", 24576)]

/-- The first memory cell that a variable may get. -/
def firstVariable : Nat := 16

structure SymbolTable where
  addresses : Std.TreeMap String Nat
  /-- The variables in the order in which they got their cells. -/
  allocated : Array String := #[]

namespace SymbolTable

def initial : SymbolTable where
  addresses := .ofList predefined

def find? (table : SymbolTable) (name : String) : Option Nat :=
  table.addresses[name]?

def contains (table : SymbolTable) (name : String) : Bool :=
  table.addresses.contains name

/-- The cell that the next variable gets. -/
def nextVariable (table : SymbolTable) : Nat :=
  firstVariable + table.allocated.size

/-- Binds a label to the number of the instruction after it.  That the name has
an address already is reported before the number is looked at. -/
def bindLabel (table : SymbolTable) (name : String) (index : Nat) : Except Fault SymbolTable :=
  if table.contains name then .error (.duplicateLabel name)
  else if maxAddress < index then .error (.addressOverflow index)
  else .ok { table with addresses := table.addresses.insert name index }

/-- The address of a name, and the table that knows it from now on. -/
def resolve (table : SymbolTable) (name : String) : Except Fault (Nat × SymbolTable) :=
  match table.find? name with
  | some address => .ok (address, table)
  | none =>
      if maxAddress < table.nextVariable then .error (.addressOverflow table.nextVariable)
      else .ok (table.nextVariable,
        { addresses := table.addresses.insert name table.nextVariable
          allocated := table.allocated.push name })

variable {table after : SymbolTable} {name : String} {address : Nat}

theorem resolve_of_find (found : table.find? name = some address) :
    table.resolve name = .ok (address, table) := by
  simp [resolve, found]

theorem find?_resolve (resolved : table.resolve name = .ok (address, after)) :
    after.find? name = some address := by
  unfold resolve at resolved
  split at resolved
  · next found =>
      cases resolved
      exact found
  · split at resolved
    · contradiction
    · cases resolved
      simp [find?]

end SymbolTable

end Hack.Assembly
