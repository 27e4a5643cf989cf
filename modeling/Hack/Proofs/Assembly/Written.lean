import Mathlib.Data.List.TakeWhile
import Hack.Assembly.Grammar
import Hack.Proofs.Sequence

namespace Hack.Assembly

open Hack.Text

/-- The line `text` writes a statement. -/
inductive Written : List Char → Statement → Prop where
  | label (name : List Char) (legal : isSymbol name = true) :
      Written ('(' :: name ++ [')']) (.label (String.ofList name))
  | literal (digits : List Char) (value : Nat) (numeral : natural? digits = some value) :
      Written ('@' :: digits) (.instruction (.address (.literal (min value maxLiteral))))
  | symbol (name : List Char) (legal : isSymbol name = true) :
      Written ('@' :: name) (.instruction (.address (.symbol (String.ofList name))))
  | compute (dest : Dest) (comp : Comp) (jump : Jump) :
      Written (Instruction.compute dest comp jump).text.toList (.instruction (.compute dest comp jump))

variable {mark c : Char} {text front rest name : List Char}
variable {dest : Dest} {comp : Comp} {jump : Jump} {statement : Statement}

theorem cutAt?_append (absent : mark ∉ front) : cutAt? mark (front ++ mark :: rest) = some (front, rest) := by
  have passes : ∀ c ∈ front, (c != mark) = true := by
    intro c member
    simp only [bne_iff_ne]
    rintro rfl
    exact absent member
  rw [cutAt?, List.dropWhile_append_of_pos passes, List.takeWhile_append_of_pos passes]
  simp

theorem cutAt?_absent (absent : mark ∉ text) : cutAt? mark text = none := by
  have dropped : text.dropWhile (· != mark) = [] := by
    refine List.dropWhile_eq_nil_iff.mpr fun c member => ?_
    simp only [bne_iff_ne]
    rintro rfl
    exact absent member
  rw [cutAt?, dropped]

theorem eq_of_cutAt? (cut : cutAt? mark text = some (front, rest)) : text = front ++ mark :: rest := by
  unfold cutAt? at cut
  split at cut
  · contradiction
  · next found more dropped =>
      cases cut
      have stops : found = mark := by
        have head := List.head?_dropWhile_not (· != mark) text
        rw [dropped] at head
        simpa using head
      subst stops
      rw [← dropped, List.takeWhile_append_dropWhile]

theorem isSymbol_of_readSymbol {read : String} (legal : readSymbol name = .ok read) :
    isSymbol name = true ∧ read = String.ofList name := by
  unfold readSymbol at legal
  split at legal
  · next symbol =>
      cases legal
      exact ⟨symbol, rfl⟩
  · contradiction

theorem readSymbol_of_isSymbol (legal : isSymbol name = true) : readSymbol name = .ok (String.ofList name) := by
  rw [readSymbol, if_pos legal]

theorem isDigit_of_natural? {value : Nat} (numeral : natural? text = some value) :
    ∀ c ∈ text, c.isDigit = true := by
  unfold natural? at numeral
  split at numeral
  · next digits => exact List.all_eq_true.mp (Bool.and_eq_true_iff.mp digits).2
  · contradiction

theorem opensSymbol_cases (opens : opensSymbol c = true) :
    (65 ≤ c.toNat ∧ c.toNat ≤ 90) ∨ (97 ≤ c.toNat ∧ c.toNat ≤ 122) ∨ c ∈ ['_', '.', '$', ':'] := by
  have letters : c.isAlpha = (decide (65 ≤ c.val ∧ c.val ≤ 90) ||
      decide (97 ≤ c.val) && decide (c.val ≤ 122)) := rfl
  simp only [opensSymbol, letters, Bool.or_eq_true, Bool.and_eq_true, decide_eq_true_eq, beq_iff_eq,
    UInt32.le_iff_toNat_le] at opens
  rcases opens with ((((capital | small) | rfl) | rfl) | rfl) | rfl
  · exact .inl capital
  · exact .inr (.inl small)
  all_goals exact .inr (.inr (by decide))

/-- A symbol does not begin with a digit, so it is no numeral. -/
theorem natural?_of_isSymbol (legal : isSymbol name = true) : natural? name = none := by
  cases name with
  | nil => contradiction
  | cons first rest =>
      simp only [isSymbol, Bool.and_eq_true] at legal
      have noDigit : first.isDigit = false := by
        refine Bool.eq_false_iff.mpr fun digit => ?_
        obtain ⟨low, high⟩ := Char.isDigit_iff_toNat.mp digit
        change 48 ≤ first.toNat at low
        change first.toNat ≤ 57 at high
        rcases opensSymbol_cases legal.1 with ⟨capital, _⟩ | ⟨small, _⟩ | mark
        · omega
        · omega
        · simp only [List.mem_cons, List.not_mem_nil, or_false] at mark
          rcases mark with rfl | rfl | rfl | rfl <;> contradiction
      simp [natural?, noDigit]

theorem eq_of_readField {α : Type} {field : Field} {ofMnemonic? : String → Option α} {token : String}
    {value : α} (read : readField field ofMnemonic? token = .ok value) : ofMnemonic? token = some value := by
  unfold readField at read
  split at read
  · next found =>
      cases read
      exact found
  · contradiction

theorem readMarked_cases {α : Type} {field : Field} {read : String → Except Fault α} {absent value : α}
    {token : Option (List Char)} (found : readMarked field read absent token = .ok value) :
    (token = none ∧ value = absent) ∨
      ∃ text, token = some text ∧ text ≠ [] ∧ read (String.ofList text) = .ok value := by
  cases token with
  | none =>
      cases found
      exact .inl ⟨rfl, rfl⟩
  | some text =>
      cases text with
      | nil => contradiction
      | cons first rest => exact .inr ⟨first :: rest, rfl, by simp, found⟩

/-- The destination with the mark that sets it off. -/
def Dest.written (dest : Dest) : List Char :=
  if dest = .nowhere then [] else dest.mnemonic.toList ++ ['=']

def Jump.written (jump : Jump) : List Char :=
  if jump = .never then [] else ';' :: jump.mnemonic.toList

theorem toList_compute_text : (Instruction.compute dest comp jump).text.toList =
    dest.written ++ comp.mnemonic.toList ++ jump.written := by
  simp only [Instruction.text, Dest.written, Jump.written, String.toList_append]
  split <;> split <;> simp

theorem written_of_readMarked_dest {token : Option (List Char)}
    (found : readMarked .dest readDest .nowhere token = .ok dest) :
    dest.written = token.elim [] (· ++ ['=']) := by
  rcases readMarked_cases found with ⟨rfl, rfl⟩ | ⟨text, rfl, nonempty, read⟩
  · rfl
  · have mnemonic := Dest.mnemonic_of_ofMnemonic? (eq_of_readField read)
    have somewhere : dest ≠ .nowhere := by
      rintro rfl
      exact nonempty (String.ofList_inj.mp (mnemonic.symm.trans rfl))
    rw [Dest.written, if_neg somewhere, mnemonic, String.toList_ofList, Option.elim_some]

theorem written_of_readMarked_jump {token : Option (List Char)}
    (found : readMarked .jump readJump .never token = .ok jump) :
    jump.written = token.elim [] (';' :: ·) := by
  rcases readMarked_cases found with ⟨rfl, rfl⟩ | ⟨text, rfl, nonempty, read⟩
  · rfl
  · have mnemonic := Jump.mnemonic_of_ofMnemonic? (eq_of_readField read)
    have jumps : jump ≠ .never := by
      rintro rfl
      exact nonempty (String.ofList_inj.mp (mnemonic.symm.trans rfl))
    rw [Jump.written, if_neg jumps, mnemonic, String.toList_ofList, Option.elim_some]

def readFields (dest : Option (List Char)) (comp : List Char) (jump : Option (List Char)) :
    Except Fault Instruction := do
  let dest ← readMarked .dest readDest .nowhere dest
  let comp ← readComp (String.ofList comp)
  let jump ← readMarked .jump readJump .never jump
  return .compute dest comp jump

/-- The fields put together again, each with the mark that sets it off. -/
def joinFields (dest : Option (List Char)) (comp : List Char) (jump : Option (List Char)) : List Char :=
  dest.elim [] (· ++ ['=']) ++ comp ++ jump.elim [] (';' :: ·)

theorem text_of_readFields {dest jump : Option (List Char)} {comp : List Char} {body : Instruction}
    (read : readFields dest comp jump = .ok body) :
    ∃ d c j, body = .compute d c j ∧ joinFields dest comp jump = body.text.toList := by
  obtain ⟨d, destRead, read⟩ := steps_of_bind read
  obtain ⟨c, compRead, read⟩ := steps_of_bind read
  obtain ⟨j, jumpRead, read⟩ := steps_of_bind read
  cases read
  have mnemonic := Comp.mnemonic_of_ofMnemonic? (eq_of_readField compRead)
  refine ⟨d, c, j, rfl, ?_⟩
  rw [toList_compute_text, written_of_readMarked_dest destRead, written_of_readMarked_jump jumpRead,
    mnemonic, String.toList_ofList, joinFields]

/-- The part before a mark, if the mark is there, and the part after it. -/
def cutFront (mark : Char) (text : List Char) : Option (List Char) × List Char :=
  match cutAt? mark text with
  | some (front, rest) => (some front, rest)
  | none => (none, text)

/-- The part before a mark, and the part after it, if the mark is there. -/
def cutBack (mark : Char) (text : List Char) : List Char × Option (List Char) :=
  match cutAt? mark text with
  | some (front, rest) => (front, some rest)
  | none => (text, none)

theorem readCompute_eq (text : List Char) : readCompute text =
    readFields (cutFront '=' text).1 (cutBack ';' (cutFront '=' text).2).1
      (cutBack ';' (cutFront '=' text).2).2 := rfl

/-- The cuts of a compute instruction lose nothing. -/
theorem joinFields_cuts (text : List Char) :
    joinFields (cutFront '=' text).1 (cutBack ';' (cutFront '=' text).2).1
      (cutBack ';' (cutFront '=' text).2).2 = text := by
  have back : ∀ text : List Char, (cutBack ';' text).1 ++ (cutBack ';' text).2.elim [] (';' :: ·) = text := by
    intro text
    unfold cutBack
    split
    · next front rest cut => simp [eq_of_cutAt? cut]
    · simp
  rw [joinFields, List.append_assoc, back]
  unfold cutFront
  split
  · next front rest cut => simp [eq_of_cutAt? cut]
  · simp

theorem text_of_readCompute {body : Instruction} (read : readCompute text = .ok body) :
    ∃ dest comp jump, body = .compute dest comp jump ∧ text = body.text.toList := by
  obtain ⟨dest, comp, jump, same, joined⟩ := text_of_readFields ((readCompute_eq text).symm.trans read)
  exact ⟨dest, comp, jump, same, (joinFields_cuts text).symm.trans joined⟩

theorem written_of_readStatement (read : readStatement text = .ok statement) : Written text statement := by
  unfold readStatement at read
  split at read
  · next rest =>
      unfold readLabel at read
      split at read
      · next closed =>
          obtain ⟨label, legal, rfl⟩ := steps_of_map read
          obtain ⟨symbol, rfl⟩ := isSymbol_of_readSymbol legal
          obtain ⟨name, rfl⟩ := List.getLast?_eq_some_iff.mp closed
          rw [List.dropLast_concat] at symbol ⊢
          exact .label name symbol
      · contradiction
  · next rest =>
      obtain ⟨operand, found, rfl⟩ := steps_of_map read
      unfold readOperand at found
      split at found
      · next value numeral =>
          cases found
          exact .literal rest value numeral
      · obtain ⟨symbol, legal, rfl⟩ := steps_of_map found
        obtain ⟨symbol, rfl⟩ := isSymbol_of_readSymbol legal
        exact .symbol rest symbol
  · obtain ⟨body, found, rfl⟩ := steps_of_map read
    obtain ⟨dest, comp, jump, rfl, rfl⟩ := text_of_readCompute found
    exact .compute dest comp jump

theorem marks_not_mem_mnemonic (dest : Dest) (comp : Comp) (jump : Jump) :
    ('=' ∉ dest.mnemonic.toList) ∧ ('=' ∉ comp.mnemonic.toList ∧ ';' ∉ comp.mnemonic.toList) ∧
      '=' ∉ jump.mnemonic.toList := by
  have dests : ∀ dest ∈ Dest.all, '=' ∉ dest.mnemonic.toList := by decide
  have comps : ∀ comp ∈ Comp.all, '=' ∉ comp.mnemonic.toList ∧ ';' ∉ comp.mnemonic.toList := by decide
  have jumps : ∀ jump ∈ Jump.all, '=' ∉ jump.mnemonic.toList := by decide
  exact ⟨dests dest (Dest.mem_all dest), comps comp (Comp.mem_all comp), jumps jump (Jump.mem_all jump)⟩

theorem readComp_mnemonic : readComp comp.mnemonic = .ok comp := by
  simp [readComp, readField, Comp.ofMnemonic?_mnemonic]

/-- The marked form of a field, with nothing where the field is absent. -/
def markedField {α : Type} [DecidableEq α] (absent value : α) (mnemonic : String) : Option (List Char) :=
  if value = absent then none else some mnemonic.toList

theorem readMarked_markedField {α : Type} [DecidableEq α] {field : Field} {read : String → Except Fault α}
    {absent value : α} {mnemonic : String} (inverse : read mnemonic = .ok value)
    (present : mnemonic = "" → value = absent) :
    readMarked field read absent (markedField absent value mnemonic) = .ok value := by
  unfold markedField
  split
  · next same => rw [readMarked, same]
  · next different =>
      cases token : mnemonic.toList with
      | nil => exact absurd (present (String.toList_eq_nil_iff.mp token)) different
      | cons first rest =>
          rw [readMarked, ← token, String.ofList_toList, inverse]
          simp

theorem readMarked_dest :
    readMarked .dest readDest .nowhere (markedField .nowhere dest dest.mnemonic) = .ok dest := by
  have all : ∀ dest ∈ Dest.all, dest.mnemonic = "" → dest = .nowhere := by decide
  refine readMarked_markedField ?_ (all dest (Dest.mem_all dest))
  simp [readDest, readField, Dest.ofMnemonic?_mnemonic]

theorem readMarked_jump :
    readMarked .jump readJump .never (markedField .never jump jump.mnemonic) = .ok jump := by
  have all : ∀ jump ∈ Jump.all, jump.mnemonic = "" → jump = .never := by decide
  refine readMarked_markedField ?_ (all jump (Jump.mem_all jump))
  simp [readJump, readField, Jump.ofMnemonic?_mnemonic]

theorem cutBack_jump : cutBack ';' (comp.mnemonic.toList ++ jump.written) =
    (comp.mnemonic.toList, markedField .never jump jump.mnemonic) := by
  obtain ⟨_, ⟨_, absent⟩, _⟩ := marks_not_mem_mnemonic .nowhere comp jump
  by_cases never : jump = .never
  · simp [cutBack, Jump.written, markedField, never, cutAt?_absent absent]
  · simp [cutBack, Jump.written, markedField, never, cutAt?_append absent]

theorem cutFront_dest (absent : '=' ∉ rest) : cutFront '=' (dest.written ++ rest) =
    (markedField .nowhere dest dest.mnemonic, rest) := by
  obtain ⟨clear, _⟩ := marks_not_mem_mnemonic dest .zero .never
  by_cases nowhere : dest = .nowhere
  · simp [cutFront, Dest.written, markedField, nowhere, cutAt?_absent absent]
  · simp [cutFront, Dest.written, markedField, nowhere, cutAt?_append clear]

theorem readCompute_text (dest : Dest) (comp : Comp) (jump : Jump) :
    readCompute (Instruction.compute dest comp jump).text.toList = .ok (.compute dest comp jump) := by
  have absent : '=' ∉ comp.mnemonic.toList ++ jump.written := by
    obtain ⟨_, ⟨inComp, _⟩, inJump⟩ := marks_not_mem_mnemonic dest comp jump
    unfold Jump.written
    split <;> simp [inComp, inJump]
  rw [toList_compute_text, List.append_assoc, readCompute_eq, cutFront_dest absent, cutBack_jump, readFields,
    readMarked_dest, String.ofList_toList, readComp_mnemonic, readMarked_jump]
  rfl

/-- What a compute instruction may begin with. -/
def computeOpenings : List Char :=
  ['A', 'M', 'D', '0', '1', '-', '!']

theorem head?_compute_text (dest : Dest) (comp : Comp) (jump : Jump) :
    ∃ first rest, (Instruction.compute dest comp jump).text.toList = first :: rest ∧
      first ∈ computeOpenings := by
  have dests : ∀ dest ∈ Dest.all, dest ≠ .nowhere →
      dest.mnemonic.toList.head? ∈ computeOpenings.map some := by decide
  have comps : ∀ comp ∈ Comp.all, comp.mnemonic.toList.head? ∈ computeOpenings.map some := by decide
  rw [toList_compute_text, Dest.written]
  split
  · obtain ⟨first, member, head⟩ := List.mem_map.mp (comps comp (Comp.mem_all comp))
    obtain ⟨rest, text⟩ := List.head?_eq_some_iff.mp head.symm
    exact ⟨first, rest ++ jump.written, by simp [text], member⟩
  · next somewhere =>
      obtain ⟨first, member, head⟩ := List.mem_map.mp (dests dest (Dest.mem_all dest) somewhere)
      obtain ⟨rest, text⟩ := List.head?_eq_some_iff.mp head.symm
      exact ⟨first, rest ++ ['='] ++ comp.mnemonic.toList ++ jump.written, by simp [text], member⟩

theorem readOperand_symbol (legal : isSymbol name = true) :
    readOperand name = .ok (.symbol (String.ofList name)) := by
  rw [readOperand, natural?_of_isSymbol legal, readSymbol_of_isSymbol legal]
  rfl

theorem readStatement_of_written (written : Written text statement) : readStatement text = .ok statement := by
  cases written with
  | label name legal =>
      change readLabel (name ++ [')']) = _
      rw [readLabel, if_pos List.getLast?_concat, List.dropLast_concat, readSymbol_of_isSymbol legal]
      rfl
  | literal digits value numeral =>
      change (readOperand digits).map _ = _
      rw [readOperand, numeral]
      rfl
  | symbol name legal =>
      change (readOperand name).map _ = _
      rw [readOperand_symbol legal]
      rfl
  | compute dest comp jump =>
      obtain ⟨first, rest, text, member⟩ := head?_compute_text dest comp jump
      have read := readCompute_text dest comp jump
      rw [text] at read ⊢
      rw [readStatement, read]
      · rfl
      all_goals
        rintro more ⟨⟩
        simp [computeOpenings] at member

end Hack.Assembly
