import Hack.Stack.Command
import Hack.Word

namespace Hack.Stack

/-- A segment that a cell of the data memory points to. -/
inductive Base where
  | locals
  | arguments
  | this
  | that
deriving DecidableEq, Repr

/-- The name of the cell that points to the segment. -/
def Base.pointer : Base → String
  | .locals => "LCL"
  | .arguments => "ARG"
  | .this => "THIS"
  | .that => "THAT"

inductive Segment where
  | constant
  | based (base : Base)
  | temp
  | pointer
  | static
deriving DecidableEq, Repr

namespace Segment

def all : List Segment :=
  [constant, based .locals, based .arguments, based .this, based .that, temp, pointer, static]

def name : Segment → String
  | constant => "constant"
  | based .locals => "local"
  | based .arguments => "argument"
  | based .this => "this"
  | based .that => "that"
  | temp => "temp"
  | pointer => "pointer"
  | static => "static"

def ofName? (token : String) : Option Segment :=
  all.find? fun segment => segment.name == token

def base? : Segment → Option Base
  | based base => some base
  | _ => none

/-- The first cell and the number of cells of the scratch registers. -/
def tempRange : Nat × Nat := (5, 8)

/-- The cells that point to the segments `this` and `that`. -/
def pointerRange : Nat × Nat := (3, 2)

def fixedRange? : Segment → Option (Nat × Nat)
  | temp => some tempRange
  | pointer => some pointerRange
  | _ => none

theorem ofName?_name (segment : Segment) : ofName? segment.name = some segment := by
  rcases segment with _ | (_ | _ | _ | _) | _ | _ | _ <;> decide

theorem name_of_ofName? {token : String} {segment : Segment}
    (read : ofName? token = some segment) : segment.name = token := by
  simpa using List.find?_some read

end Segment

/-- A place that values are pushed from and popped to. -/
inductive Cell where
  /-- The cell `index` places after the one that the base points to. -/
  | indirect (base : Base) (index : Nat)
  | fixed (address : Nat)
  /-- A variable of the file in which the command stands. -/
  | static (index : Nat)
deriving DecidableEq, Repr

inductive Operation where
  | pushConstant (value : Nat)
  | push (cell : Cell)
  | pop (cell : Cell)
  | arithmetic (op : ArithmeticOp)
  | label (name : String)
  | goto (name : String)
  | ifGoto (name : String)
  | function (name : String) (locals : Nat)
  | call (name : String) (arguments : Nat)
  | ret
deriving DecidableEq, Repr

/-- The cell of a segment, which must not be the constant one. -/
def Segment.cell (segment : Segment) (index : Nat) : Except Fault Cell :=
  match segment with
  | .constant => .error (.unsupportedSegment segment.name)
  | .based base => .ok (.indirect base index)
  | .static => .ok (.static index)
  | .temp => within tempRange
  | .pointer => within pointerRange
where
  within (range : Nat × Nat) : Except Fault Cell :=
    if index < range.2 then .ok (.fixed (range.1 + index))
    else .error (.indexOutOfRange segment.name index)

namespace Command

def requireName (command : Command) : Except Fault String :=
  match command.name with
  | some name => .ok name
  | none => .error (.missingArgument command.text)

def requireNumber (command : Command) : Except Fault Nat :=
  match command.number with
  | some number => .ok number
  | none => .error (.missingArgument command.text)

/-- The segment and the index of a push or a pop.  An unknown segment is
reported even where the index is missing. -/
def requireSlot (command : Command) : Except Fault (Segment × Nat) := do
  let name ← command.requireName
  match Segment.ofName? name with
  | none => .error (.unsupportedSegment name)
  | some segment => return (segment, ← command.requireNumber)

def requirePush (command : Command) : Except Fault Operation := do
  let (segment, index) ← command.requireSlot
  match segment with
  | .constant =>
      if maxAddress < index then .error (.addressOverflow index) else .ok (.pushConstant index)
  | _ => return .push (← segment.cell index)

def requirePop (command : Command) : Except Fault Operation := do
  let (segment, index) ← command.requireSlot
  return .pop (← segment.cell index)

/-- The operation that a command stands for, or what is wrong with it. -/
def meaning (command : Command) : Except Fault Operation :=
  match command.kind with
  | .push => command.requirePush
  | .pop => command.requirePop
  | .label => command.requireName.map .label
  | .goto => command.requireName.map .goto
  | .ifGoto => command.requireName.map .ifGoto
  | .function => do return .function (← command.requireName) (← command.requireNumber)
  | .call => do return .call (← command.requireName) (← command.requireNumber)
  | .ret => .ok .ret
  | .arithmetic op => .ok (.arithmetic op)

/-- The operation of a command, or the fault with its place. -/
def operation (command : Command) : Except Error Operation :=
  command.meaning.mapError command.blame

end Command

end Hack.Stack
