import Mathlib.Logic.Equiv.Basic
import Hack.Proofs.Assembly.Rendering
import Hack.Proofs.Assembly.Resolution

namespace Hack

/-- A fault names a label at most. -/
def Fault.rename (rename : String → String) : Fault → Fault
  | .duplicateLabel label => .duplicateLabel (rename label)
  | fault => fault

def Error.rename (rename : String → String) (error : Error) : Error :=
  ⟨error.place, error.fault.rename rename⟩

end Hack

namespace Hack.Assembly

open SymbolTable

def Operand.rename (rename : String → String) : Operand → Operand
  | .literal value => .literal value
  | .symbol name => .symbol (rename name)

def Instruction.rename (rename : String → String) : Instruction → Instruction
  | .address operand => .address (operand.rename rename)
  | .compute dest comp jump => .compute dest comp jump

def Statement.rename (rename : String → String) : Statement → Statement
  | .label name => .label (rename name)
  | .instruction body => .instruction (body.rename rename)

/-- Names that differ still differ, and the predefined names are what they were. -/
structure IsRenaming (among : String → Prop) (rename : String → String) : Prop where
  injective : ∀ name other, among name → among other → rename name = rename other → name = other
  fixed : ∀ entry ∈ predefined, rename entry.1 = entry.1
  free : ∀ name, among name → predefined.lookup name = none → predefined.lookup (rename name) = none

/-- The same line under other names.  Its text plays no part any more. -/
structure ParsedLine.Renamed (among : String → Prop) (rename : String → String) (line other : ParsedLine) : Prop where
  number : other.number = line.number
  statement : other.statement = line.statement.rename rename
  named : line.statement.Named among

/-- Entries that differ in the text of their lines at most. -/
structure Entry.SameWord (entry other : Entry) : Prop where
  index : other.index = entry.index
  line : other.line = entry.line
  word : other.word = entry.word

/-- An instruction that is about to be encoded and the same one under other names. -/
structure Recoded (among : String → Prop) (rename : String → String) (line other : SourceLine × Instruction) :
    Prop where
  number : other.1.number = line.1.number
  body : other.2 = line.2.rename rename
  named : (Statement.instruction line.2).Named among

/-- Tables that give the same addresses to names and to what these are renamed to. -/
structure SymbolTable.Corresponds (among : String → Prop) (rename : String → String) (table other : SymbolTable) :
    Prop where
  find : ∀ name, among name → other.find? (rename name) = table.find? name
  next : other.nextVariable = table.nextVariable

variable {among : String → Prop} {rename : String → String} {table other : SymbolTable} {name : String} {index : Nat}
variable {program otherProgram : List ParsedLine} {body : Instruction}

theorem IsRenaming.corresponds_initial (changes : IsRenaming among rename) :
    Corresponds among rename .initial .initial := by
  refine ⟨fun name inside => ?_, rfl⟩
  rw [find?_initial, find?_initial]
  cases listed : predefined.lookup name with
  | none => exact changes.free name inside listed
  | some address =>
      obtain ⟨before, later, split, _⟩ := List.lookup_eq_some_iff.mp listed
      have same : rename name = name := changes.fixed (name, address) (by simp [split])
      rw [same, listed]

namespace SymbolTable.Corresponds

theorem insert (changes : IsRenaming among rename) (corresponds : Corresponds among rename table other)
    (inside : among name) (address : Nat) {allocated otherAllocated : Array String}
    (sizes : otherAllocated.size = allocated.size) :
    Corresponds among rename ⟨table.addresses.insert name address, allocated⟩
      ⟨other.addresses.insert (rename name) address, otherAllocated⟩ := by
  refine ⟨fun used usedInside => ?_, by simp [nextVariable, sizes]⟩
  rw [find?_insert, find?_insert]
  by_cases same : name = used
  · rw [if_pos same, if_pos (congrArg rename same)]
  · have different : rename name ≠ rename used := fun clash => same (changes.injective name used inside usedInside clash)
    rw [if_neg same, if_neg different]
    exact corresponds.find used usedInside

theorem size_eq (corresponds : Corresponds among rename table other) :
    other.allocated.size = table.allocated.size :=
  Nat.add_left_cancel corresponds.next

theorem bindLabel (changes : IsRenaming among rename) (corresponds : Corresponds among rename table other)
    (inside : among name) (index : Nat) :
    EndAlike (Corresponds among rename) (fun fault changed => changed = fault.rename rename)
      (table.bindLabel name index) (other.bindLabel (rename name) index) := by
  have known : other.contains (rename name) = table.contains name := by
    rw [contains_eq_isSome, contains_eq_isSome, corresponds.find name inside]
  rw [SymbolTable.bindLabel, SymbolTable.bindLabel, known]
  split
  · exact .error rfl
  · split
    · exact .error rfl
    · exact .ok (insert changes corresponds inside index corresponds.size_eq)

theorem resolve (changes : IsRenaming among rename) (corresponds : Corresponds among rename table other)
    (inside : among name) :
    EndAlike (fun found changed => changed.1 = found.1 ∧ Corresponds among rename found.2 changed.2)
      (fun fault changed => changed = fault.rename rename) (table.resolve name) (other.resolve (rename name)) := by
  have known := corresponds.find name inside
  rw [SymbolTable.resolve, SymbolTable.resolve, known, corresponds.next]
  cases table.find? name with
  | some address => exact .ok ⟨rfl, corresponds⟩
  | none =>
      simp only
      split
      · exact .error rfl
      · refine .ok ⟨rfl, insert changes corresponds inside _ ?_⟩
        rw [Array.size_push, Array.size_push, corresponds.size_eq]

theorem encode (changes : IsRenaming among rename) (corresponds : Corresponds among rename table other)
    (inside : (Statement.instruction body).Named among) :
    EndAlike (fun found changed => changed.1 = found.1 ∧ Corresponds among rename found.2 changed.2)
      (fun fault changed => changed = fault.rename rename) (body.encode table) ((body.rename rename).encode other) := by
  cases body with
  | compute dest comp jump => exact .ok ⟨rfl, corresponds⟩
  | address operand =>
      cases operand with
      | literal value =>
          simp only [Instruction.rename, Operand.rename, Instruction.encode]
          split
          · exact .error rfl
          · exact .ok ⟨rfl, corresponds⟩
      | symbol name =>
          refine (resolve changes corresponds inside).bind fun found changed alike => ?_
          exact .ok ⟨congrArg (BitVec.ofNat 16) alike.1, alike.2⟩

end SymbolTable.Corresponds

/-- Blaming the same place for faults that differ in a name at most. -/
theorem blame_renamed {α β : Type} {values : α → β → Prop} {first : Except Fault α} {second : Except Fault β} (place : Place)
    (alike : EndAlike values (fun fault changed => changed = fault.rename rename) first second) :
    EndAlike values (fun error changed => changed = error.rename rename) (place.blame first) (place.blame second) :=
  alike.mapError fun _ _ same => congrArg (Error.mk place) same

theorem bindLabels_renamed (changes : IsRenaming among rename) (corresponds : Corresponds among rename table other)
    (renamed : List.Forall₂ (ParsedLine.Renamed among rename) program otherProgram) :
    EndAlike (Corresponds among rename) (fun error changed => changed = error.rename rename)
      (bindLabels table index program) (bindLabels other index otherProgram) := by
  induction renamed generalizing table other index with
  | nil => exact .ok corresponds
  | @cons line otherLine rest otherRest one _ ih =>
      have inside := one.named
      rw [bindLabels, bindLabels, one.statement, one.number]
      cases kind : line.statement with
      | instruction body => exact ih corresponds
      | label name =>
          rw [kind] at inside
          have bound := corresponds.bindLabel changes inside index
          simp only [Statement.rename]
          generalize table.bindLabel name index = first, other.bindLabel (rename name) index = second at bound
          cases bound with
          | ok next => exact ih next
          | error same => exact .error (congrArg (Error.mk (.line line.number)) same)

theorem instructions_renamed (renamed : List.Forall₂ (ParsedLine.Renamed among rename) program otherProgram) :
    List.Forall₂ (Recoded among rename) (instructions program) (instructions otherProgram) := by
  induction renamed with
  | nil => exact .nil
  | @cons line otherLine rest otherRest one _ ih =>
      have same := one.statement
      have inside := one.named
      simp only [instructions, List.filterMap_cons, same] at ih ⊢
      cases kind : line.statement with
      | label name => exact ih
      | instruction body =>
          rw [kind] at inside
          exact .cons ⟨one.number, rfl, inside⟩ ih

theorem encodeEntry_renamed (changes : IsRenaming among rename) (corresponds : Corresponds among rename table other)
    {line otherLine : SourceLine × Instruction} (one : Recoded among rename line otherLine) :
    EndAlike (fun found changed => Entry.SameWord found.1 changed.1 ∧ Corresponds among rename found.2 changed.2)
      (fun error changed => changed = error.rename rename)
      (encodeEntry (line, index) table) (encodeEntry (otherLine, index) other) := by
  rw [encodeEntry, encodeEntry, one.number, one.body]
  refine (blame_renamed _ (corresponds.encode changes one.named)).bind fun found changed alike => ?_
  exact .ok ⟨⟨rfl, rfl, alike.1⟩, alike.2⟩

/-- A program and the same program under other names are assembled to the same
words for the same lines, or are refused for the same reason at the same line. -/
theorem encodeProgram_renamed (changes : IsRenaming among rename)
    (renamed : List.Forall₂ (ParsedLine.Renamed among rename) program otherProgram) :
    EndAlike (List.Forall₂ Entry.SameWord) (fun error changed => changed = error.rename rename)
      (encodeProgram program) (encodeProgram otherProgram) := by
  refine (bindLabels_renamed changes changes.corresponds_initial renamed).bind fun table other corresponds => ?_
  have coded := forall₂_zipIdx (instructions_renamed renamed) 0
  have steps : ∀ item otherItem state otherState,
      Recoded among rename item.1 otherItem.1 ∧ otherItem.2 = item.2 → Corresponds among rename state otherState →
        EndAlike (fun found changed => Entry.SameWord found.1 changed.1 ∧ Corresponds among rename found.2 changed.2)
          (fun error changed => changed = error.rename rename)
          (encodeEntry item state) (encodeEntry otherItem otherState) := by
    rintro ⟨line, index⟩ ⟨otherLine, _⟩ state otherState ⟨one, rfl⟩ next
    exact encodeEntry_renamed changes next one
  refine (EndAlike.runM steps coded corresponds).bind fun found changed alike => ?_
  exact .ok alike.1

/-- A loop that starts with a variable, and the same loop with the names of the two
exchanged: both are assembled, to the same words. -/
theorem encodeProgram_renamed_exchange :
    let exchange : String → String := Equiv.swap "LOOP" "x"
    let loop : List ParsedLine :=
      [⟨⟨1, "(LOOP)"⟩, .label "LOOP"⟩, ⟨⟨2, "@x"⟩, .instruction (.address (.symbol "x"))⟩,
        ⟨⟨4, "@LOOP"⟩, .instruction (.address (.symbol "LOOP"))⟩,
        ⟨⟨5, "0;JMP"⟩, .instruction (.compute .nowhere .zero .always)⟩]
    let exchanged : List ParsedLine :=
      [⟨⟨1, "(x)"⟩, .label "x"⟩, ⟨⟨2, "@LOOP"⟩, .instruction (.address (.symbol "LOOP"))⟩,
        ⟨⟨4, "@x"⟩, .instruction (.address (.symbol "x"))⟩,
        ⟨⟨5, "0;JMP"⟩, .instruction (.compute .nowhere .zero .always)⟩]
    IsRenaming (fun name => isSymbol name.toList = true) exchange ∧
      List.Forall₂ (ParsedLine.Renamed (fun name => isSymbol name.toList = true) exchange) loop exchanged ∧
      EndAlike (List.Forall₂ Entry.SameWord) (fun error changed => changed = error.rename exchange)
        (encodeProgram loop) (encodeProgram exchanged) ∧
      (encodeProgram exchanged).map (List.map Entry.word) = .ok [16#16, 0#16, 0xEA87#16] := by
  intro exchange loop exchanged
  have changes : IsRenaming (fun name => isSymbol name.toList = true) exchange := by
    refine ⟨fun name other _ _ same => (Equiv.swap "LOOP" "x").injective same, by decide, fun name _ unlisted => ?_⟩
    simp only [exchange, Equiv.swap_apply_def]
    split
    · rfl
    · split
      · rfl
      · exact unlisted
  have first : isSymbol "LOOP".toList = true := by decide
  have second : isSymbol "x".toList = true := by decide
  have renamed : List.Forall₂ (ParsedLine.Renamed (fun name => isSymbol name.toList = true) exchange) loop exchanged :=
    .cons ⟨rfl, by decide, first⟩ (.cons ⟨rfl, by decide, second⟩ (.cons ⟨rfl, by decide, first⟩
      (.cons ⟨rfl, rfl, trivial⟩ .nil)))
  exact ⟨changes, renamed, encodeProgram_renamed changes renamed, by decide +kernel⟩

end Hack.Assembly
