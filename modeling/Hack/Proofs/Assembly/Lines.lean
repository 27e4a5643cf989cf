import Hack.Proofs.Assembly.Misreading
import Hack.Proofs.Assembly.Rendering

namespace Hack.Assembly

/-! The language of lines.

Which lines are statements is said by a grammar over characters and mnemonics,
apart from the tables and the cuts that reading works with.  Printing is the
inverse of reading, up to the spelling of numerals.
-/

open Hack.Text

/-- A letter or one of the four marks. -/
def SymbolStart (c : Char) : Prop :=
  ('A' ≤ c ∧ c ≤ 'Z') ∨ ('a' ≤ c ∧ c ≤ 'z') ∨ c ∈ ['_', '.', '$', ':']

def Decimal (c : Char) : Prop :=
  '0' ≤ c ∧ c ≤ '9'

inductive Symbolic : List Char → Prop where
  | mk {first : Char} {rest : List Char} (opens : SymbolStart first) (more : ∀ c ∈ rest, SymbolStart c ∨ Decimal c) :
      Symbolic (first :: rest)

def destMnemonics : List String :=
  ["A", "D", "M", "AD", "AM", "MD", "AMD"]

def compMnemonics : List String :=
  ["0", "1", "-1", "D", "A", "M", "!D", "!A", "!M", "-D", "-A", "-M", "D+1", "A+1", "M+1", "D-1", "A-1", "M-1",
   "D+A", "D+M", "D-A", "D-M", "A-D", "M-D", "D&A", "D&M", "D|A", "D|M"]

def jumpMnemonics : List String :=
  ["JGT", "JEQ", "JGE", "JLT", "JNE", "JLE", "JMP"]

/-- The lines that are statements. -/
inductive Grammatical : List Char → Prop where
  | label {name : List Char} (symbolic : Symbolic name) : Grammatical ('(' :: name ++ [')'])
  | number {digits : List Char} (nonempty : digits ≠ []) (decimal : ∀ c ∈ digits, Decimal c) : Grammatical ('@' :: digits)
  | symbol {name : List Char} (symbolic : Symbolic name) : Grammatical ('@' :: name)
  | compute {dest comp jump : String} (destPart : dest ∈ "" :: destMnemonics.map (· ++ "=")) (compPart : comp ∈ compMnemonics)
      (jumpPart : jump ∈ "" :: jumpMnemonics.map (";" ++ ·)) : Grammatical (dest ++ comp ++ jump).toList

/-- A numeral has one digit at least, which may be a zero. -/
def withoutLeadingZeros : List Char → List Char
  | '0' :: next :: rest => withoutLeadingZeros (next :: rest)
  | digits => digits

/-- The line as it is printed once it has been read. -/
def reprinted : List Char → List Char
  | '@' :: operand =>
      '@' :: if operand.all Char.isDigit then
        if Nat.ofDigitChars 10 operand 0 < 2 ^ 64 then withoutLeadingZeros operand else "18446744073709551615".toList
      else operand
  | line => line

/-- An instruction that is written the way it is meant. -/
def Instruction.Printable : Instruction → Prop
  | .address (.literal value) => value < 2 ^ 64
  | .address (.symbol name) => Symbolic name.toList
  | .compute _ _ _ => True

variable {c : Char} {text digits name : List Char} {body : Instruction}

theorem opensSymbol_iff : opensSymbol c = true ↔ SymbolStart c := by
  have letters : c.isAlpha = (decide (65 ≤ c.val ∧ c.val ≤ 90) || decide (97 ≤ c.val) && decide (c.val ≤ 122)) := rfl
  simp only [opensSymbol, SymbolStart, letters, Bool.or_eq_true, Bool.and_eq_true, decide_eq_true_eq, beq_iff_eq,
    Char.le_def, List.mem_cons, List.not_mem_nil, or_false, or_assoc]
  rfl

theorem isDigit_iff : c.isDigit = true ↔ Decimal c := by
  have digit : c.isDigit = (decide (48 ≤ c.val) && decide (c.val ≤ 57)) := rfl
  simp only [digit, Decimal, Bool.and_eq_true, decide_eq_true_eq, Char.le_def]
  rfl

theorem isSymbol_iff : isSymbol name = true ↔ Symbolic name := by
  constructor
  · intro legal
    cases name with
    | nil => contradiction
    | cons first rest =>
        simp only [isSymbol, Bool.and_eq_true, List.all_eq_true, Bool.or_eq_true, opensSymbol_iff, isDigit_iff] at legal
        exact .mk legal.1 legal.2
  · intro symbolic
    cases symbolic with
    | mk opens more =>
        simp only [isSymbol, Bool.and_eq_true, List.all_eq_true, Bool.or_eq_true, opensSymbol_iff, isDigit_iff]
        exact ⟨opens, more⟩

theorem natural?_eq_some_iff {value : Nat} : natural? digits = some value ↔
    digits ≠ [] ∧ (∀ c ∈ digits, Decimal c) ∧ value = Nat.ofDigitChars 10 digits 0 := by
  have same : digitsValue digits = Nat.ofDigitChars 10 digits 0 := rfl
  simp only [natural?, same, ← isDigit_iff, ← List.all_eq_true]
  split
  · next all =>
      simp only [Bool.and_eq_true, Bool.not_eq_true', List.isEmpty_eq_false_iff] at all
      simp [all, eq_comm]
  · next not =>
      simp only [Bool.and_eq_true, Bool.not_eq_true', List.isEmpty_eq_false_iff] at not
      constructor
      · intro found
        contradiction
      · rintro ⟨nonempty, all, _⟩
        exact absurd ⟨nonempty, all⟩ not

theorem exists_digit (decimal : Decimal c) : ∃ digit < 10, c = Nat.digitChar digit := by
  obtain ⟨low, high⟩ := Char.isDigit_iff_toNat.mp (isDigit_iff.mpr decimal)
  change 48 ≤ c.toNat at low
  change c.toNat ≤ 57 at high
  have small : c.toNat - 48 < 10 := by omega
  refine ⟨c.toNat - 48, small, Char.toNat_inj.mp ?_⟩
  rw [Nat.toNat_digitChar_of_lt_ten small]
  omega

/-- Behind a number that is not zero, every further digit counts. -/
theorem toDigits_append_digits {value : Nat} (positive : 0 < value) (decimal : ∀ c ∈ digits, Decimal c) :
    Nat.toDigits 10 value ++ digits = Nat.toDigits 10 (Nat.ofDigitChars 10 digits value) := by
  induction digits generalizing value with
  | nil => simp
  | cons c rest ih =>
      obtain ⟨one, more⟩ := List.forall_mem_cons.mp decimal
      obtain ⟨digit, small, rfl⟩ := exists_digit one
      have next : Nat.toDigits 10 value ++ [digit.digitChar] = Nat.toDigits 10 (10 * value + digit) := by
        rw [← Nat.toDigits_append_toDigits (by decide) positive small, Nat.toDigits_of_lt_base small]
      rw [Nat.ofDigitChars_cons_digitChar_of_lt_ten small, ← ih (by omega) more, ← next, List.append_assoc,
        List.singleton_append]

theorem toDigits_ofDigitChars (nonempty : digits ≠ []) (decimal : ∀ c ∈ digits, Decimal c) :
    Nat.toDigits 10 (Nat.ofDigitChars 10 digits 0) = withoutLeadingZeros digits := by
  fun_induction withoutLeadingZeros digits with
  | case1 next rest ih => exact ih (List.cons_ne_nil next rest) (List.forall_mem_cons.mp decimal).2
  | case2 digits kept =>
      cases digits with
      | nil => contradiction
      | cons c rest =>
          obtain ⟨one, more⟩ := List.forall_mem_cons.mp decimal
          obtain ⟨digit, small, rfl⟩ := exists_digit one
          rw [Nat.ofDigitChars_cons_digitChar_of_lt_ten small, Nat.mul_zero, Nat.zero_add]
          cases rest with
          | nil => rw [Nat.ofDigitChars_nil, Nat.toDigits_of_lt_base small]
          | cons next rest =>
              have positive : 0 < digit := by
                refine Nat.pos_of_ne_zero ?_
                rintro rfl
                exact kept next rest rfl
              rw [← toDigits_append_digits positive more, Nat.toDigits_of_lt_base small, List.singleton_append]

theorem reprinted_number (nonempty : digits ≠ []) (decimal : ∀ c ∈ digits, Decimal c) :
    reprinted ('@' :: digits) = '@' :: (toString (min (Nat.ofDigitChars 10 digits 0) maxLiteral)).toList := by
  have all : digits.all Char.isDigit = true := List.all_eq_true.mpr fun c member => isDigit_iff.mpr (decimal c member)
  rw [reprinted, if_pos all]
  congr 1
  split
  · next within =>
      have kept : min (Nat.ofDigitChars 10 digits 0) maxLiteral = Nat.ofDigitChars 10 digits 0 :=
        Nat.min_eq_left (Nat.le_of_lt_succ within)
      rw [kept, ← toDigits_ofDigitChars nonempty decimal]
      exact Nat.toList_repr.symm
  · next above =>
      have capped : min (Nat.ofDigitChars 10 digits 0) maxLiteral = maxLiteral :=
        Nat.min_eq_right (Nat.le_of_succ_le (Nat.le_of_not_lt above))
      rw [capped]
      decide

/-- A symbol is no numeral, so its line is printed as it was. -/
theorem reprinted_symbol (legal : isSymbol name = true) : reprinted ('@' :: name) = '@' :: name := by
  have letters : name.all Char.isDigit = false := by
    have unread := natural?_of_isSymbol legal
    cases name with
    | nil => contradiction
    | cons first rest => simpa [natural?] using unread
  rw [reprinted, letters]
  rfl

theorem reprinted_compute (dest : Dest) (comp : Comp) (jump : Jump) :
    reprinted (Instruction.compute dest comp jump).text.toList = (Instruction.compute dest comp jump).text.toList := by
  obtain ⟨first, rest, same, opening⟩ := head?_compute_text dest comp jump
  rw [same, reprinted]
  rintro operand ⟨⟩
  simp [computeOpenings] at opening

theorem exists_dest_part (dest : Dest) : ∃ part ∈ "" :: destMnemonics.map (· ++ "="), part.toList = dest.written := by
  have all : ∀ dest ∈ Dest.all, ∃ part ∈ "" :: destMnemonics.map (· ++ "="), part.toList = dest.written := by decide
  exact all dest (Dest.mem_all dest)

theorem exists_jump_part (jump : Jump) : ∃ part ∈ "" :: jumpMnemonics.map (";" ++ ·), part.toList = jump.written := by
  have all : ∀ jump ∈ Jump.all, ∃ part ∈ "" :: jumpMnemonics.map (";" ++ ·), part.toList = jump.written := by decide
  exact all jump (Jump.mem_all jump)

theorem mnemonic_mem (comp : Comp) : comp.mnemonic ∈ compMnemonics := by
  have all : ∀ comp ∈ Comp.all, comp.mnemonic ∈ compMnemonics := by decide
  exact all comp (Comp.mem_all comp)

theorem grammatical_of_written {statement : Statement} (written : Written text statement) : Grammatical text := by
  cases written with
  | label name legal => exact .label (isSymbol_iff.mp legal)
  | literal digits value numeral =>
      obtain ⟨nonempty, decimal, _⟩ := natural?_eq_some_iff.mp numeral
      exact .number nonempty decimal
  | symbol name legal => exact .symbol (isSymbol_iff.mp legal)
  | compute dest comp jump =>
      obtain ⟨destPart, destMember, destSame⟩ := exists_dest_part dest
      obtain ⟨jumpPart, jumpMember, jumpSame⟩ := exists_jump_part jump
      rw [toList_compute_text, ← destSame, ← jumpSame, ← String.toList_append, ← String.toList_append]
      exact .compute destMember (mnemonic_mem comp) jumpMember

theorem written_of_grammatical (grammatical : Grammatical text) : ∃ statement, Written text statement := by
  have dests : ∀ part ∈ "" :: destMnemonics.map (· ++ "="), ∃ dest ∈ Dest.all, dest.written = part.toList := by decide
  have comps : ∀ part ∈ compMnemonics, ∃ comp ∈ Comp.all, comp.mnemonic = part := by decide
  have jumps : ∀ part ∈ "" :: jumpMnemonics.map (";" ++ ·), ∃ jump ∈ Jump.all, jump.written = part.toList := by decide
  cases grammatical with
  | label symbolic => exact ⟨_, .label _ (isSymbol_iff.mpr symbolic)⟩
  | number nonempty decimal => exact ⟨_, .literal _ _ (natural?_eq_some_iff.mpr ⟨nonempty, decimal, rfl⟩)⟩
  | symbol symbolic => exact ⟨_, .symbol _ (isSymbol_iff.mpr symbolic)⟩
  | compute destPart compPart jumpPart =>
      obtain ⟨dest, _, destSame⟩ := dests _ destPart
      obtain ⟨comp, _, rfl⟩ := comps _ compPart
      obtain ⟨jump, _, jumpSame⟩ := jumps _ jumpPart
      rw [String.toList_append, String.toList_append, ← destSame, ← jumpSame, ← toList_compute_text]
      exact ⟨_, .compute dest comp jump⟩

/-- Printing a line that has been read changes the spelling of a numeral at most. -/
theorem text_of_written (written : Written text (.instruction body)) : body.text.toList = reprinted text := by
  cases written with
  | literal digits value numeral =>
      obtain ⟨nonempty, decimal, rfl⟩ := natural?_eq_some_iff.mp numeral
      rw [reprinted_number nonempty decimal]
      simp [Instruction.text, Operand.text]
  | symbol name legal =>
      rw [reprinted_symbol legal]
      simp [Instruction.text, Operand.text]
  | compute dest comp jump => exact (reprinted_compute dest comp jump).symm

theorem printable_of_written (written : Written text (.instruction body)) : body.Printable := by
  cases written with
  | literal digits value numeral => exact Nat.lt_succ_of_le (Nat.min_le_right value maxLiteral)
  | symbol name legal =>
      rw [Instruction.Printable, String.toList_ofList]
      exact isSymbol_iff.mp legal
  | compute dest comp jump => trivial

theorem Instruction.Printable.written (printable : body.Printable) : Written body.text.toList (.instruction body) := by
  have legal : (Statement.instruction body).Legal := by
    cases body with
    | compute dest comp jump => trivial
    | address operand =>
        cases operand with
        | literal value => trivial
        | symbol name => exact isSymbol_iff.mpr printable
  have same : (Statement.instruction body).bounded = .instruction body := by
    cases body with
    | compute dest comp jump => rfl
    | address operand =>
        cases operand with
        | literal value =>
            have within : min value maxLiteral = value := Nat.min_eq_left (Nat.le_of_lt_succ printable)
            rw [Statement.bounded, within]
        | symbol name => rfl
  have written := written_text legal
  rwa [same] at written

/-- Lines are read if they are grammatical, and printing what has been read gives
the line back, but for the spelling of numerals, and is itself read back. -/
theorem reading_inverts_printing :
    (∀ text, (∃ statement, readStatement text = .ok statement) ↔ Grammatical text) ∧
      (∀ text body, readStatement text = .ok (.instruction body) →
        body.text.toList = reprinted text ∧ readStatement body.text.toList = .ok (.instruction body)) ∧
      ∀ body : Instruction, body.Printable → readStatement body.text.toList = .ok (.instruction body) := by
  refine ⟨fun text => ⟨?_, fun grammatical => ?_⟩, fun text body read => ?_, fun body printable => ?_⟩
  · rintro ⟨statement, read⟩
    exact grammatical_of_written (written_of_readStatement read)
  · obtain ⟨statement, written⟩ := written_of_grammatical grammatical
    exact ⟨statement, readStatement_of_written written⟩
  · have written := written_of_readStatement read
    exact ⟨text_of_written written, readStatement_of_written (printable_of_written written).written⟩
  · exact readStatement_of_written printable.written

/-- A numeral with leading zeros. -/
theorem reading_inverts_printing_zeros :
    readStatement "@007".toList = .ok (.instruction (.address (.literal 7))) ∧
      (Instruction.address (.literal 7)).text.toList = reprinted "@007".toList ∧
      readStatement (Instruction.address (.literal 7)).text.toList = .ok (.instruction (.address (.literal 7))) := by
  have read : readStatement "@007".toList = .ok (.instruction (.address (.literal 7))) :=
    eq_ok_of_toOption (by decide)
  exact ⟨read, reading_inverts_printing.2.1 "@007".toList _ read⟩

end Hack.Assembly
