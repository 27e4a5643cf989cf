import Hack.Proofs.Assembly.Linking
import Hack.Proofs.Machine.Execution

namespace Hack.Assembly

open Hack.Text

/-- Instructions of two programs that load the same address or are the same
computation. -/
inductive SameEffect (statements others : List Statement) : Instruction → Instruction → Prop where
  | address {operand other : Operand}
      (same : (Instruction.address operand).value statements = (Instruction.address other).value others) :
      SameEffect statements others (.address operand) (.address other)
  | compute (dest : Dest) (comp : Comp) (jump : Jump) :
      SameEffect statements others (.compute dest comp jump) (.compute dest comp jump)

def Comp.ofBits? (bits : BitVec 7) : Option Comp :=
  all.find? fun comp => comp.bits == bits

variable {dest dest' : Dest} {comp comp' : Comp} {jump jump' : Jump} {body body' : Instruction}
variable {statements others : List Statement} {words words' : List Word} {entries entries' : List Entry}
variable {source other text text' : String}

theorem Comp.ofBits?_bits (comp : Comp) : ofBits? comp.bits = some comp := by
  rcases comp <;> (try rename_i y; cases y) <;> decide

theorem computeWord_injective (same : computeWord dest comp jump = computeWord dest' comp' jump') :
    dest = dest' ∧ comp = comp' ∧ jump = jump' := by
  obtain ⟨_, input, control, ⟨toA, toD, toM⟩, negative, zero, positive⟩ := fields_computeWord dest comp jump
  obtain ⟨_, input', control', ⟨toA', toD', toM'⟩, negative', zero', positive'⟩ := fields_computeWord dest' comp' jump'
  rw [same] at input control toA toD toM negative zero positive
  have bits : comp.bits = comp'.bits := by
    rw [Comp.bits, Comp.bits, ← input, ← control, input', control']
  refine ⟨?_, ?_, ?_⟩
  · obtain ⟨writesA, writesD, writesM⟩ := dest
    rw [Dest.mk.injEq]
    exact ⟨toA.symm.trans toA', toD.symm.trans toD', toM.symm.trans toM'⟩
  · have found := Comp.ofBits?_bits comp
    rw [bits, Comp.ofBits?_bits] at found
    exact (Option.some.inj found).symm
  · obtain ⟨ifNegative, ifZero, ifPositive⟩ := jump
    rw [Jump.mk.injEq]
    exact ⟨negative.symm.trans negative', zero.symm.trans zero', positive.symm.trans positive'⟩

/-- The leading bit tells the two kinds of words apart. -/
theorem word_address_ne_computeWord {operand : Operand} (fits : (Instruction.address operand).Fits statements)
    (dest : Dest) (comp : Comp) (jump : Jump) :
    (Instruction.address operand).word statements ≠ computeWord dest comp jump := by
  intro same
  have loads := loads_of_fits fits
  rw [same, (fields_computeWord dest comp jump).1] at loads
  contradiction

theorem word_eq_iff (fits : body.Fits statements) (fits' : body'.Fits others) :
    body.word statements = body'.word others ↔ SameEffect statements others body body' := by
  constructor
  · intro same
    cases body with
    | address operand =>
        cases body' with
        | address other =>
            apply SameEffect.address
            rw [← toNat_word fits, ← toNat_word fits', same]
        | compute dest comp jump =>
            rw [word_compute] at same
            exact absurd same (word_address_ne_computeWord fits dest comp jump)
    | compute dest comp jump =>
        rw [word_compute] at same
        cases body' with
        | address other => exact absurd same.symm (word_address_ne_computeWord fits' dest comp jump)
        | compute dest' comp' jump' =>
            rw [word_compute] at same
            obtain ⟨rfl, rfl, rfl⟩ := computeWord_injective same
            exact .compute dest comp jump
  · intro same
    cases same with
    | address same => exact BitVec.eq_of_toNat_eq (by rw [toNat_word fits, toNat_word fits', same])
    | compute dest comp jump => rw [word_compute, word_compute]

theorem words_eq_iff (linked : Linked statements words) (linked' : Linked others words') :
    words = words' ↔ List.Forall₂ (SameEffect statements others) (code statements) (code others) := by
  rw [linked.words_eq, linked'.words_eq, ← List.forall₂_eq_eq_eq, List.forall₂_map_left_iff, List.forall₂_map_right_iff,
    List.forall₂_iff_get, List.forall₂_iff_get]
  apply and_congr_right
  intro _
  apply forall_congr'
  intro index
  apply forall₂_congr
  intro inside inside'
  exact word_eq_iff (linked.fits _ (List.get_mem ..)) (linked'.fits _ (List.get_mem ..))

theorem values_of_linked (linked : Linked statements words) :
    words.map BitVec.toNat = (code statements).map (Instruction.value statements) := by
  rw [linked.words_eq, List.map_map]
  exact List.map_congr_left fun body member => toNat_word (linked.fits body member)

theorem numbers_binaryText (entries : List Entry) :
    (lines (binaryText entries).toList).map (fun digits => Nat.ofDigitChars 2 digits 0) =
      (entries.map Entry.word).map BitVec.toNat := by
  rw [lines_binaryText, List.map_map, List.map_map]
  exact List.map_congr_left fun entry _ => ofDigitChars_binary entry.word

theorem binaryText_eq_iff : binaryText entries = binaryText entries' ↔ entries.map Entry.word = entries'.map Entry.word := by
  constructor
  · intro same
    have numbers := numbers_binaryText entries
    rw [same, numbers_binaryText] at numbers
    exact (List.map_injective_iff.mpr (fun _ _ => BitVec.eq_of_toNat_eq) numbers).symm
  · intro same
    have spelled : ∀ entries : List Entry, binaryText entries = "\n".intercalate ((entries.map Entry.word).map Word.binary) :=
      fun entries => by rw [binaryText, List.map_map]; rfl
    rw [spelled, spelled, same]

theorem binary_digit {word : Word} {c : Char} (member : c ∈ (Word.binary word).toList) : c = '0' ∨ c = '1' := by
  rw [Word.binary, String.toList_ofList] at member
  obtain ⟨index, _, rfl⟩ := List.mem_map.mp member
  split
  · exact .inr rfl
  · exact .inl rfl

theorem splitOn_binaryText (nonempty : entries ≠ []) :
    (binaryText entries).toList.splitOn '\n' = lines (binaryText entries).toList := by
  rw [lines_binaryText, binaryText, String.toList_intercalate, List.map_map]
  apply List.splitOn_intercalate
  · intro digits member
    obtain ⟨entry, _, rfl⟩ := List.mem_map.mp member
    intro lineFeed
    rcases binary_digit lineFeed with same | same <;> contradiction
  · simpa using nonempty

theorem listing_of_assemble (assembled : assemble source = .ok text) :
    ∃ entries, listing source = .ok entries ∧ text = binaryText entries :=
  steps_of_map assembled

/-- Two sources have the same binary text just if their instructions, taken in
order, load the same addresses and are the same computations.  The words of a
program can be read off its text, and no computation has the word of an address. -/
theorem binary_determines_program (assembled : assemble source = .ok text) (assembled' : assemble other = .ok text') :
    ∃ statements others entries, Reads source.toList statements ∧ Reads other.toList others ∧
      (text = text' ↔ List.Forall₂ (SameEffect statements others) (code statements) (code others)) ∧
      listing source = .ok entries ∧
      (entries.map fun entry => entry.word.toNat) = (code statements).map (Instruction.value statements) ∧
      (lines text.toList).map (fun digits => Nat.ofDigitChars 2 digits 0) = (entries.map fun entry => entry.word.toNat) ∧
      (∀ digits ∈ lines text.toList, digits.length = 16 ∧ ∀ c ∈ digits, c = '0' ∨ c = '1') ∧
      (entries = [] → text = "") ∧ (entries ≠ [] → text.toList.splitOn '\n' = lines text.toList) ∧
      ∀ operand, .address operand ∈ code statements → ∀ dest comp jump,
        (Instruction.address operand).word statements ≠ computeWord dest comp jump := by
  obtain ⟨entries, listed, rfl⟩ := listing_of_assemble assembled
  obtain ⟨entries', listed', rfl⟩ := listing_of_assemble assembled'
  obtain ⟨statements, reads, linked⟩ := linked_of_listing listed
  obtain ⟨others, reads', linked'⟩ := linked_of_listing listed'
  refine ⟨statements, others, entries, reads, reads', ?_, listed, ?_, ?_, ?_, ?_, splitOn_binaryText, ?_⟩
  · rw [binaryText_eq_iff, words_eq_iff linked linked']
  · rw [← values_of_linked linked, List.map_map]
    rfl
  · rw [numbers_binaryText, List.map_map]
    rfl
  · intro digits member
    rw [lines_binaryText] at member
    obtain ⟨entry, _, rfl⟩ := List.mem_map.mp member
    exact ⟨by rw [String.length_toList, Word.length_binary], fun c => binary_digit⟩
  · rintro rfl
    rfl
  · intro operand member
    exact word_address_ne_computeWord (linked.fits _ member)

/-- Where a label is declared and how an address is spelled leaves no trace. -/
theorem binary_determines_program_labelled :
    assemble "@END\nD;JGT\n(END)\nM=D" = .ok "0000000000000010\n1110001100000001\n1110001100001000" ∧
      ∃ statements others, Reads "@END\nD;JGT\n(END)\nM=D".toList statements ∧ Reads "@002\nD;JGT\nM=D".toList others ∧
        List.Forall₂ (SameEffect statements others) (code statements) (code others) := by
  have assembled : assemble "@END\nD;JGT\n(END)\nM=D" = .ok "0000000000000010\n1110001100000001\n1110001100001000" :=
    eq_ok_of_toOption (by decide +kernel)
  have assembled' : assemble "@002\nD;JGT\nM=D" = .ok "0000000000000010\n1110001100000001\n1110001100001000" :=
    eq_ok_of_toOption (by decide +kernel)
  obtain ⟨statements, others, _, reads, reads', same, _⟩ := binary_determines_program assembled assembled'
  exact ⟨assembled, statements, others, reads, reads', same.mp rfl⟩

end Hack.Assembly
