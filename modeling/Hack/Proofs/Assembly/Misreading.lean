import Hack.Proofs.Assembly.Written

namespace Hack.Assembly

open Hack.Text

/-- The fields of a compute instruction: the first `=` ends the destination, and
the first `;` behind it begins the jump. -/
structure Parts (text : List Char) (dest : Option (List Char)) (comp : List Char) (jump : Option (List Char)) :
    Prop where
  joined : joinFields dest comp jump = text
  dest_clear : ∀ token ∈ dest, '=' ∉ token
  no_dest : dest = none → '=' ∉ text
  comp_clear : ';' ∉ comp

/-- A field that may be left out, but must not be empty where its mark stands. -/
inductive Named {α : Type} (mnemonic : α → String) : Option (List Char) → Prop where
  | absent : Named mnemonic none
  | present (value : α) (nonempty : mnemonic value ≠ "") : Named mnemonic (some (mnemonic value).toList)

def Misnamed {α : Type} (mnemonic : α → String) (token : List Char) : Prop :=
  token = [] ∨ ∀ value, mnemonic value ≠ String.ofList token

/-- A line that begins neither a label nor an address instruction. -/
def Bare (text : List Char) : Prop :=
  text.head? ≠ some '(' ∧ text.head? ≠ some '@'

/-- What is wrong with a line that writes no statement. -/
inductive Unreadable : List Char → Fault → Prop where
  | unclosed (rest : List Char) (opened : rest.getLast? ≠ some ')') :
      Unreadable ('(' :: rest) (.invalidSymbol (String.ofList ('(' :: rest)))
  | label (name : List Char) (illegal : isSymbol name = false) :
      Unreadable ('(' :: name ++ [')']) (.invalidSymbol (String.ofList name))
  | operand (text : List Char) (noNumeral : natural? text = none) (illegal : isSymbol text = false) :
      Unreadable ('@' :: text) (.invalidSymbol (String.ofList text))
  | dest {text token comp : List Char} {jump : Option (List Char)} (bare : Bare text)
      (parts : Parts text (some token) comp jump) (wrong : Misnamed Dest.mnemonic token) :
      Unreadable text (.invalidMnemonic .dest (String.ofList token))
  | comp {text token : List Char} {dest jump : Option (List Char)} (bare : Bare text)
      (parts : Parts text dest token jump) (named : Named Dest.mnemonic dest)
      (wrong : ∀ comp : Comp, comp.mnemonic ≠ String.ofList token) :
      Unreadable text (.invalidMnemonic .comp (String.ofList token))
  | jump {text token : List Char} {dest : Option (List Char)} {comp : Comp} (bare : Bare text)
      (parts : Parts text dest comp.mnemonic.toList (some token)) (named : Named Dest.mnemonic dest)
      (wrong : Misnamed Jump.mnemonic token) :
      Unreadable text (.invalidMnemonic .jump (String.ofList token))

variable {α : Type} {mnemonic : α → String} {ofMnemonic? : String → Option α} {absent : α} {field : Field}
variable {text comp name : List Char} {dest jump marked : Option (List Char)} {fault : Fault}

theorem readSymbol_eq_error_iff :
    readSymbol name = .error fault ↔ isSymbol name = false ∧ fault = .invalidSymbol (String.ofList name) := by
  unfold readSymbol
  cases isSymbol name <;> simp [eq_comm]

section Fields

variable (inverse : ∀ value, ofMnemonic? (mnemonic value) = some value)
  (spelled : ∀ {token : String} {value : α}, ofMnemonic? token = some value → mnemonic value = token)
include inverse spelled

theorem readField_eq_error_iff {token : String} :
    readField field ofMnemonic? token = .error fault ↔
      (∀ value, mnemonic value ≠ token) ∧ fault = .invalidMnemonic field token := by
  unfold readField
  rw [← eq_none_iff_unspelled inverse spelled]
  cases ofMnemonic? token <;> simp [eq_comm]

theorem readMarked_eq_error_iff :
    readMarked field (readField field ofMnemonic?) absent marked = .error fault ↔
      ∃ token, marked = some token ∧ Misnamed mnemonic token ∧ fault = .invalidMnemonic field (String.ofList token) := by
  match marked with
  | none => simp [readMarked]
  | some [] =>
      have blank : String.ofList [] = "" := rfl
      rw [readMarked]
      constructor
      · rintro ⟨⟩
        exact ⟨[], rfl, .inl rfl, by rw [blank]⟩
      · rintro ⟨token, ⟨⟩, _, rfl⟩
        rw [blank]
  | some (first :: rest) =>
      have nonempty : first :: rest ≠ [] := List.cons_ne_nil first rest
      rw [readMarked, readField_eq_error_iff inverse spelled]
      · simp [Misnamed]
      · exact nonempty

theorem exists_readMarked_iff :
    (∃ value, readMarked field (readField field ofMnemonic?) absent marked = .ok value) ↔ Named mnemonic marked := by
  constructor
  · rintro ⟨value, read⟩
    rcases readMarked_cases read with ⟨rfl, _⟩ | ⟨token, rfl, nonempty, known⟩
    · exact .absent
    · have same : token = (mnemonic value).toList := by
        rw [spelled (eq_of_readField known), String.toList_ofList]
      rw [same]
      refine .present value fun empty => nonempty ?_
      rw [same, empty]
      rfl
  · intro named
    cases outcome : readMarked field (readField field ofMnemonic?) absent marked with
    | ok value => exact ⟨value, rfl⟩
    | error fault =>
        obtain ⟨token, rfl, wrong, _⟩ := (readMarked_eq_error_iff inverse spelled).mp outcome
        cases named with
        | present value nonempty =>
            rcases wrong with empty | unknown
            · exact absurd (String.toList_eq_nil_iff.mp empty) nonempty
            · exact absurd String.ofList_toList.symm (unknown value)

end Fields

theorem not_mem_of_cutAt? {mark : Char} {front rest : List Char} (cut : cutAt? mark text = some (front, rest)) :
    mark ∉ front := by
  unfold cutAt? at cut
  split at cut
  · contradiction
  · cases cut
    intro inside
    have passes := List.mem_takeWhile_imp inside
    simp at passes

theorem cutAt?_eq_none_iff {mark : Char} : cutAt? mark text = none ↔ mark ∉ text := by
  refine ⟨fun uncut inside => ?_, cutAt?_absent⟩
  obtain ⟨front, rest, rfl, clear⟩ := List.eq_append_cons_of_mem inside
  rw [cutAt?_append clear] at uncut
  contradiction

theorem parts_of_cuts (text : List Char) :
    Parts text (cutFront '=' text).1 (cutBack ';' (cutFront '=' text).2).1 (cutBack ';' (cutFront '=' text).2).2 := by
  refine ⟨joinFields_cuts text, ?_, ?_, ?_⟩
  · unfold cutFront
    split
    · next front rest cut =>
        rintro token ⟨⟩
        exact not_mem_of_cutAt? cut
    · simp
  · unfold cutFront
    split
    · simp
    · next uncut => exact fun _ => cutAt?_eq_none_iff.mp uncut
  · unfold cutBack
    split
    · next front rest cut => exact not_mem_of_cutAt? cut
    · next uncut => exact cutAt?_eq_none_iff.mp uncut

theorem Parts.cuts (parts : Parts text dest comp jump) :
    dest = (cutFront '=' text).1 ∧ comp = (cutBack ';' (cutFront '=' text).2).1 ∧
      jump = (cutBack ';' (cutFront '=' text).2).2 := by
  have front : cutFront '=' text = (dest, comp ++ jump.elim [] (';' :: ·)) := by
    rw [← parts.joined, joinFields, cutFront]
    cases dest with
    | none =>
        have absent := parts.no_dest rfl
        rw [← parts.joined, joinFields] at absent
        rw [cutAt?_absent absent]
        simp
    | some token =>
        have split : (some token).elim [] (· ++ ['=']) ++ comp ++ jump.elim [] (';' :: ·) =
            token ++ '=' :: (comp ++ jump.elim [] (';' :: ·)) := by simp
        rw [split, cutAt?_append (parts.dest_clear token rfl)]
  have back : cutBack ';' (comp ++ jump.elim [] (';' :: ·)) = (comp, jump) := by
    rw [cutBack]
    cases jump with
    | none => simp [cutAt?_absent parts.comp_clear]
    | some token => simp [cutAt?_append parts.comp_clear]
  rw [front, back]
  exact ⟨rfl, rfl, rfl⟩

theorem readCompute_of_parts (parts : Parts text dest comp jump) : readCompute text = readFields dest comp jump := by
  obtain ⟨rfl, rfl, rfl⟩ := parts.cuts
  exact readCompute_eq text

theorem unreadable_of_readFields (bare : Bare text) (parts : Parts text dest comp jump)
    (failed : readFields dest comp jump = .error fault) : Unreadable text fault := by
  -- Each field is judged only after the ones before it have been read, so these are named.
  rcases error_of_bind failed with inDest | ⟨d, destRead, failed⟩
  · obtain ⟨token, rfl, wrong, rfl⟩ :=
      (readMarked_eq_error_iff Dest.ofMnemonic?_mnemonic Dest.mnemonic_of_ofMnemonic?).mp inDest
    exact .dest bare parts wrong
  · have named : Named Dest.mnemonic dest :=
      (exists_readMarked_iff Dest.ofMnemonic?_mnemonic Dest.mnemonic_of_ofMnemonic?).mp ⟨d, destRead⟩
    rcases error_of_bind failed with inComp | ⟨c, compRead, failed⟩
    · obtain ⟨wrong, rfl⟩ :=
        (readField_eq_error_iff Comp.ofMnemonic?_mnemonic Comp.mnemonic_of_ofMnemonic?).mp inComp
      exact .comp bare parts named wrong
    · have spelled : comp = c.mnemonic.toList := by
        rw [Comp.mnemonic_of_ofMnemonic? (eq_of_readField compRead), String.toList_ofList]
      rcases error_of_bind failed with inJump | ⟨_, _, finished⟩
      · obtain ⟨token, rfl, wrong, rfl⟩ :=
          (readMarked_eq_error_iff Jump.ofMnemonic?_mnemonic Jump.mnemonic_of_ofMnemonic?).mp inJump
        exact .jump bare (spelled ▸ parts) named wrong
      · cases finished

/-- The fields are judged from left to right. -/
theorem readFields_of_dest {token : List Char} (wrong : Misnamed Dest.mnemonic token) :
    readFields (some token) comp jump = .error (.invalidMnemonic .dest (String.ofList token)) := by
  have failed : readMarked .dest readDest .nowhere (some token) = .error (.invalidMnemonic .dest (String.ofList token)) :=
    (readMarked_eq_error_iff Dest.ofMnemonic?_mnemonic Dest.mnemonic_of_ofMnemonic?).mpr ⟨token, rfl, wrong, rfl⟩
  rw [readFields, failed]
  rfl

theorem readFields_of_comp (named : Named Dest.mnemonic dest) (wrong : ∀ c : Comp, c.mnemonic ≠ String.ofList comp) :
    readFields dest comp jump = .error (.invalidMnemonic .comp (String.ofList comp)) := by
  obtain ⟨d, destRead⟩ : ∃ d, readMarked .dest readDest .nowhere dest = .ok d :=
    (exists_readMarked_iff Dest.ofMnemonic?_mnemonic Dest.mnemonic_of_ofMnemonic?).mpr named
  have failed : readComp (String.ofList comp) = .error (.invalidMnemonic .comp (String.ofList comp)) :=
    (readField_eq_error_iff Comp.ofMnemonic?_mnemonic Comp.mnemonic_of_ofMnemonic?).mpr ⟨wrong, rfl⟩
  rw [readFields, destRead, failed]
  rfl

theorem readFields_of_jump {c : Comp} {token : List Char} (named : Named Dest.mnemonic dest)
    (wrong : Misnamed Jump.mnemonic token) :
    readFields dest c.mnemonic.toList (some token) = .error (.invalidMnemonic .jump (String.ofList token)) := by
  obtain ⟨d, destRead⟩ : ∃ d, readMarked .dest readDest .nowhere dest = .ok d :=
    (exists_readMarked_iff Dest.ofMnemonic?_mnemonic Dest.mnemonic_of_ofMnemonic?).mpr named
  have failed : readMarked .jump readJump .never (some token) = .error (.invalidMnemonic .jump (String.ofList token)) :=
    (readMarked_eq_error_iff Jump.ofMnemonic?_mnemonic Jump.mnemonic_of_ofMnemonic?).mpr ⟨token, rfl, wrong, rfl⟩
  rw [readFields, destRead, String.ofList_toList, readComp_mnemonic, failed]
  rfl

theorem readStatement_bare (bare : Bare text) : readStatement text = (readCompute text).map .instruction := by
  rw [readStatement]
  · rintro rest rfl
    exact bare.1 rfl
  · rintro rest rfl
    exact bare.2 rfl

theorem unreadable_of_readStatement (failed : readStatement text = .error fault) : Unreadable text fault := by
  unfold readStatement at failed
  split at failed
  · next rest =>
      unfold readLabel at failed
      split at failed
      · next closed =>
          obtain ⟨illegal, rfl⟩ := readSymbol_eq_error_iff.mp (error_of_map failed)
          obtain ⟨name, rfl⟩ := List.getLast?_eq_some_iff.mp closed
          rw [List.dropLast_concat] at illegal ⊢
          exact .label name illegal
      · next opened =>
          cases failed
          exact .unclosed rest opened
  · next operand =>
      have inOperand := error_of_map failed
      unfold readOperand at inOperand
      split at inOperand
      · contradiction
      · next noNumeral =>
          obtain ⟨illegal, rfl⟩ := readSymbol_eq_error_iff.mp (error_of_map inOperand)
          exact .operand operand noNumeral illegal
  · next noLabel noAddress =>
      have bare : Bare text := by
        cases text with
        | nil => exact ⟨nofun, nofun⟩
        | cons first rest =>
            refine ⟨fun opens => noLabel rest ?_, fun opens => noAddress rest ?_⟩ <;> rw [Option.some.inj opens]
      exact unreadable_of_readFields bare (parts_of_cuts text) ((readCompute_eq text).symm.trans (error_of_map failed))

theorem readStatement_of_unreadable (unreadable : Unreadable text fault) : readStatement text = .error fault := by
  have compute : ∀ {fault : Fault}, Bare text → readCompute text = .error fault → readStatement text = .error fault := by
    intro fault bare failed
    rw [readStatement_bare bare, failed]
    rfl
  cases unreadable with
  | unclosed rest opened =>
      change readLabel rest = _
      rw [readLabel, if_neg opened]
  | label name illegal =>
      change readLabel (name ++ [')']) = _
      rw [readLabel, if_pos List.getLast?_concat, List.dropLast_concat, readSymbol_eq_error_iff.mpr ⟨illegal, rfl⟩]
      rfl
  | operand operand noNumeral illegal =>
      change (readOperand operand).map _ = _
      rw [readOperand, noNumeral, readSymbol_eq_error_iff.mpr ⟨illegal, rfl⟩]
      rfl
  | dest bare parts wrong => exact compute bare ((readCompute_of_parts parts).trans (readFields_of_dest wrong))
  | comp bare parts named wrong => exact compute bare ((readCompute_of_parts parts).trans (readFields_of_comp named wrong))
  | jump bare parts named wrong => exact compute bare ((readCompute_of_parts parts).trans (readFields_of_jump named wrong))

/-- What the reading of a line reports is what is wrong with the line. -/
theorem readStatement_eq_error_iff : readStatement text = .error fault ↔ Unreadable text fault :=
  ⟨unreadable_of_readStatement, readStatement_of_unreadable⟩

theorem readStatement_eq_ok_iff {statement : Statement} : readStatement text = .ok statement ↔ Written text statement :=
  ⟨written_of_readStatement, readStatement_of_written⟩

end Hack.Assembly
