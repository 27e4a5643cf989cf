import Mathlib.Algebra.Group.Nat.Defs
import Mathlib.Data.List.Dedup
import Mathlib.Data.List.TakeWhile
import Hack.Assembly.Listing

namespace Hack.Assembly

/-! The address of every name, said without a table.

What a name stands for depends on the whole program, but not on the order in
which the program is worked through: a name is predefined, or it is declared
somewhere, or it is a variable.  The definitions here say which, and the table
is shown to agree with them after the labels have been bound and after every
instruction that has been encoded.
-/

def Statement.instruction? : Statement → Option Instruction
  | .label _ => none
  | .instruction body => some body

def code (statements : List Statement) : List Instruction :=
  statements.filterMap Statement.instruction?

/-- The number of instructions before the first declaration of a name. -/
def labelPosition? (name : String) : List Statement → Option Nat
  | [] => none
  | .label other :: rest => if other = name then some 0 else labelPosition? name rest
  | .instruction _ :: rest => (labelPosition? name rest).map (· + 1)

/-- The address of a name that is no variable. -/
def fixedAddress? (statements : List Statement) (name : String) : Option Nat :=
  (predefined.lookup name).or (labelPosition? name statements)

def Instruction.name? : Instruction → Option String
  | .address (.symbol name) => some name
  | _ => none

/-- The variables that instructions use, in the order of their uses. -/
def variableUses (statements : List Statement) (body : List Instruction) : List String :=
  (body.filterMap Instruction.name?).filter fun name => (fixedAddress? statements name).isNone

/-- Variables get consecutive cells in the order of their first uses: before a
variable come the distinct names that are used before it. -/
def variableCell (uses : List String) (name : String) : Nat :=
  firstVariable + (uses.takeWhile (· != name)).dedup.length

def addressOf (statements : List Statement) (name : String) : Nat :=
  (fixedAddress? statements name).getD (variableCell (variableUses statements (code statements)) name)

def Instruction.value (statements : List Statement) : Instruction → Nat
  | .address (.literal value) => value
  | .address (.symbol name) => addressOf statements name
  | .compute dest comp jump => 0xE000 + comp.bits.toNat * 64 + dest.bits.toNat * 8 + jump.bits.toNat

def Instruction.word (statements : List Statement) (body : Instruction) : Word :=
  BitVec.ofNat 16 (body.value statements)

variable {statements front back : List Statement} {name other : String} {body : Instruction}
variable {program : List ParsedLine} {rest : List Instruction} {uses more : List String} {address : Nat}

@[simp] theorem code_nil : code [] = [] := rfl

@[simp] theorem code_label : code (.label name :: back) = code back := rfl

@[simp] theorem code_instruction : code (.instruction body :: back) = body :: code back := rfl

@[simp] theorem code_append : code (front ++ back) = code front ++ code back :=
  List.filterMap_append

theorem labelPosition?_append_label (absent : labelPosition? name front = none) :
    labelPosition? name (front ++ .label name :: back) = some (code front).length := by
  induction front with
  | nil => simp [labelPosition?]
  | cons statement rest ih =>
      cases statement with
      | label other =>
          simp only [labelPosition?] at absent
          split at absent
          · contradiction
          · next different => simp [labelPosition?, different, ih absent]
      | instruction body =>
          simp only [labelPosition?, Option.map_eq_none_iff] at absent
          simp [labelPosition?, ih absent]

theorem exists_of_labelPosition? {position : Nat} (declared : labelPosition? name statements = some position) :
    ∃ front back, statements = front ++ .label name :: back ∧ labelPosition? name front = none ∧
      position = (code front).length := by
  induction statements generalizing position with
  | nil => contradiction
  | cons statement rest ih =>
      cases statement with
      | label other =>
          simp only [labelPosition?] at declared
          split at declared
          · next same =>
              subst same
              cases declared
              exact ⟨[], rest, rfl, rfl, rfl⟩
          · next different =>
              obtain ⟨front, back, rfl, absent, rfl⟩ := ih declared
              exact ⟨.label other :: front, back, rfl, by simp [labelPosition?, different, absent], rfl⟩
      | instruction body =>
          obtain ⟨before, found, rfl⟩ := Option.map_eq_some_iff.mp declared
          obtain ⟨front, back, rfl, absent, rfl⟩ := ih found
          exact ⟨.instruction body :: front, back, rfl, by simp [labelPosition?, absent], rfl⟩

theorem labelPosition?_eq_none_iff : labelPosition? name statements = none ↔ .label name ∉ statements := by
  have absent : ∀ {list : List Statement}, .label name ∉ list → labelPosition? name list = none := by
    intro list free
    refine Option.eq_none_iff_forall_ne_some.mpr fun position declared => ?_
    obtain ⟨front, back, rfl, _⟩ := exists_of_labelPosition? declared
    exact free (by simp)
  refine ⟨fun nowhere declared => ?_, absent⟩
  obtain ⟨front, back, rfl, first⟩ := List.eq_append_cons_of_mem declared
  rw [labelPosition?_append_label (absent first)] at nowhere
  contradiction

/-- Names with marks in them are made up, by the programmer or by a translation. -/
theorem not_predefined_of_mark {mark : Char} (isMark : mark ∈ ['.', '$']) (member : mark ∈ name.toList) :
    predefined.lookup name = none := by
  have dot : ∀ entry ∈ predefined, '.' ∉ entry.1.toList := by decide
  have dollar : ∀ entry ∈ predefined, '$' ∉ entry.1.toList := by decide
  have names : ∀ entry ∈ predefined, mark ∉ entry.1.toList := by
    rcases List.mem_pair.mp isMark with rfl | rfl
    · exact dot
    · exact dollar
  refine List.lookup_eq_none_iff.mpr fun entry listed => ?_
  have different : name ≠ entry.1 := by
    rintro rfl
    exact names entry listed member
  simpa using different

def statementsOf (program : List ParsedLine) : List Statement :=
  program.map ParsedLine.statement

theorem instructions_map_snd : (instructions program).map Prod.snd = code (statementsOf program) := by
  induction program with
  | nil => rfl
  | cons line rest ih =>
      cases kind : line.statement with
      | label name => simpa [instructions, statementsOf, kind] using ih
      | instruction body => simpa [instructions, statementsOf, kind] using ih

theorem length_dedup_append_singleton :
    (uses ++ [name]).dedup.length = if name ∈ uses then uses.dedup.length else uses.dedup.length + 1 := by
  have moved : (uses ++ [name]).Perm (name :: uses) := List.perm_append_singleton name uses
  rw [moved.dedup.length_eq]
  split
  · next member => rw [List.dedup_cons_of_mem member]
  · next absent => rw [List.dedup_cons_of_notMem absent, List.length_cons]

/-- Later uses do not move a variable. -/
theorem variableCell_append (member : name ∈ uses) :
    variableCell (uses ++ more) name = variableCell uses name := by
  have stops : (uses.takeWhile (· != name)).length ≠ uses.length := by
    intro full
    have whole : uses.takeWhile (· != name) = uses :=
      (List.takeWhile_prefix _).eq_of_length full
    have passes := List.takeWhile_eq_self_iff.mp whole name member
    simp at passes
  rw [variableCell, variableCell, List.takeWhile_append, if_neg stops]

theorem variableCell_append_new (absent : name ∉ uses) (more : List String) :
    variableCell (uses ++ name :: more) name = firstVariable + uses.dedup.length := by
  have passes : uses.takeWhile (· != name) = uses := by
    refine List.takeWhile_eq_self_iff.mpr fun other member => ?_
    simp only [bne_iff_ne]
    rintro rfl
    exact absent member
  rw [variableCell, List.takeWhile_append, if_pos (by rw [passes])]
  simp

theorem variableUses_append (front back : List Instruction) :
    variableUses statements (front ++ back) = variableUses statements front ++ variableUses statements back := by
  simp [variableUses]

theorem variableUses_symbol_fixed (fixed : fixedAddress? statements name = some address) :
    variableUses statements (.address (.symbol name) :: rest) = variableUses statements rest := by
  simp [variableUses, Instruction.name?, fixed]

theorem variableUses_symbol (free : fixedAddress? statements name = none) :
    variableUses statements (.address (.symbol name) :: rest) = name :: variableUses statements rest := by
  simp [variableUses, Instruction.name?, free]

theorem variableUses_of_name?_none (nameless : body.name? = none) :
    variableUses statements (body :: rest) = variableUses statements rest := by
  simp [variableUses, nameless]

theorem toNat_append_eq {high low : Nat} (x : BitVec high) (y : BitVec low) :
    (x ++ y).toNat = x.toNat * 2 ^ low + y.toNat := by
  rw [BitVec.toNat_append, ← Nat.shiftLeft_add_eq_or_of_lt y.isLt, Nat.shiftLeft_eq]

theorem toNat_computeWord (dest : Dest) (comp : Comp) (jump : Jump) :
    (computeWord dest comp jump).toNat =
      0xE000 + comp.bits.toNat * 64 + dest.bits.toNat * 8 + jump.bits.toNat := by
  simp only [computeWord, toNat_append_eq, BitVec.toNat_ofNat]
  omega

/-- Address instructions carry addresses that fit into them. -/
def Instruction.Fits (statements : List Statement) : Instruction → Prop
  | .address operand => (Instruction.address operand).value statements ≤ maxAddress
  | .compute _ _ _ => True

end Hack.Assembly
