import Hack.Proofs.Assembly.Cleaning
import Hack.Proofs.Assembly.Resolution

namespace Hack.Assembly

open Hack.Text

/-- The number that a cleaned line of a program is encoded as. -/
inductive Denotes (statements : List Statement) : List Char → Nat → Prop where
  | literal (digits : List Char) (value : Nat) (numeral : natural? digits = some value) :
      Denotes statements ('@' :: digits) value
  | symbol (name : List Char) (legal : isSymbol name = true) :
      Denotes statements ('@' :: name) (addressOf statements (String.ofList name))
  | compute (dest : Dest) (comp : Comp) (jump : Jump) :
      Denotes statements (Instruction.compute dest comp jump).text.toList
        (0xE000 + comp.bits.toNat * 64 + dest.bits.toNat * 8 + jump.bits.toNat)

/-- The words of a program whose names have found their addresses. -/
structure Linked (statements : List Statement) (words : List Word) : Prop where
  words_eq : words = (code statements).map (Instruction.word statements)
  fits : ∀ body ∈ code statements, body.Fits statements
  label : ∀ {front back : List Statement} {name : String}, statements = front ++ .label name :: back →
    predefined.lookup name = none ∧ labelPosition? name front = none ∧ (code front).length ≤ maxAddress

variable {source : String} {entries : List Entry} {program : List ParsedLine}
variable {statements front back : List Statement} {words : List Word} {name : String} {body : Instruction}

theorem program_of_listing (assembled : listing source = .ok entries) :
    ∃ program, parseLines (clean source) = .ok program ∧ encodeProgram program = .ok entries :=
  steps_of_bind assembled

theorem linked_of_encodeProgram (encoded : encodeProgram program = .ok entries) :
    Linked (statementsOf program) (entries.map Entry.word) := by
  obtain ⟨table, bound, rfl, fits⟩ := encodeProgram_cases encoded
  refine ⟨?_, fun body member => ?_, fun split => ?_⟩
  · have words : ∀ item : (SourceLine × Instruction) × Nat,
        (declaredEntry (statementsOf program) item).word = item.1.2.word (statementsOf program) :=
      fun _ => rfl
    rw [← instructions_map_snd, List.map_map, List.map_map]
    conv_rhs => rw [← List.zipIdx_map_fst 0 (instructions program), List.map_map]
    exact List.map_congr_left fun item _ => words item
  · rw [← instructions_map_snd] at member
    obtain ⟨line, inside, rfl⟩ := List.mem_map.mp member
    exact fits line inside
  · obtain ⟨fresh, absent, within⟩ := bindLabels_fresh bound split
    rw [find?_initial] at fresh
    exact ⟨fresh, absent, by omega⟩

theorem Linked.addressOf_label (linked : Linked statements words)
    (split : statements = front ++ .label name :: back) :
    addressOf statements name = (code front).length := by
  obtain ⟨fresh, absent, _⟩ := linked.label split
  have position : labelPosition? name (front ++ .label name :: back) = some (code front).length :=
    labelPosition?_append_label absent
  rw [← split] at position
  rw [addressOf, fixedAddress?, fresh, position, Option.none_or, Option.getD_some]

theorem toNat_word (fits : body.Fits statements) : (body.word statements).toNat = body.value statements := by
  have bound : body.value statements < 2 ^ 16 := by
    cases body with
    | address operand =>
        have within : (Instruction.address operand).value statements ≤ 32767 := fits
        omega
    | compute dest comp jump =>
        have compBits := comp.bits.isLt
        have destBits := dest.bits.isLt
        have jumpBits := jump.bits.isLt
        simp only [Instruction.value]
        omega
  rw [Instruction.word, BitVec.toNat_ofNat, Nat.mod_eq_of_lt bound]

theorem ofDigitChars_binary_prefix (word : Word) {count : Nat} (within : count ≤ 16) :
    Nat.ofDigitChars 2 ((List.range count).map fun i => if word.getMsbD i then '1' else '0') 0 =
      word.toNat / 2 ^ (16 - count) := by
  induction count with
  | zero =>
      have bound := word.isLt
      simp only [List.range_zero, List.map_nil, Nat.ofDigitChars_nil]
      omega
  | succ count ih =>
      have bit : word.getMsbD count = (word.toNat / 2 ^ (15 - count)).testBit 0 := by
        rw [BitVec.getMsbD, ← Nat.shiftRight_eq_div_pow, Nat.testBit_shiftRight, Nat.add_zero,
          BitVec.getLsbD, decide_eq_true (show count < 16 by omega), Bool.true_and,
          show 16 - 1 - count = 15 - count by omega]
      have half : word.toNat / 2 ^ (16 - count) = word.toNat / 2 ^ (15 - count) / 2 := by
        rw [Nat.div_div_eq_div_mul, ← Nat.pow_succ, show (15 - count).succ = 16 - count by omega]
      rw [List.range_succ, List.map_append, Nat.ofDigitChars_append, ih (by omega), List.map_singleton,
        Nat.ofDigitChars_cons, Nat.ofDigitChars_nil, half, show 16 - (count + 1) = 15 - count by omega, bit,
        Nat.testBit_zero]
      split
      · next odd =>
          have rest := of_decide_eq_true odd
          change 2 * _ + 1 = _
          omega
      · next even =>
          have rest := of_decide_eq_false (Bool.eq_false_iff.mpr even)
          change 2 * _ + 0 = _
          omega

theorem ofDigitChars_binary (word : Word) : Nat.ofDigitChars 2 (Word.binary word).toList 0 = word.toNat := by
  rw [Word.binary, String.toList_ofList, ofDigitChars_binary_prefix word (Nat.le_refl 16)]
  simp

theorem sourceLine_of_instructions :
    (instructions program).map Prod.fst =
      (program.filter fun line => line.statement.instruction?.isSome).map ParsedLine.toSourceLine := by
  induction program with
  | nil => rfl
  | cons line rest ih =>
      cases kind : line.statement with
      | label name => simpa [instructions, kind, Statement.instruction?] using ih
      | instruction body => simpa [instructions, kind, Statement.instruction?] using ih

theorem mem_of_mem_instructions {line : SourceLine} (member : (line, body) ∈ instructions program) :
    ∃ parsed ∈ program, parsed.toSourceLine = line ∧ parsed.statement = .instruction body := by
  obtain ⟨parsed, inside, found⟩ := List.mem_filterMap.mp member
  cases kind : parsed.statement with
  | label name => simp [kind] at found
  | instruction inner =>
      simp only [kind, Option.some.injEq, Prod.mk.injEq] at found
      exact ⟨parsed, inside, found.1, by rw [kind, found.2]⟩

theorem denotes_of_written {text : List Char} (written : Written text (.instruction body))
    (fits : body.Fits statements) : Denotes statements text (body.value statements) := by
  cases written with
  | literal digits value numeral =>
      have within : min value maxLiteral ≤ maxAddress := fits
      have whole : min value maxLiteral = value := by
        simp only [maxLiteral, maxAddress] at within ⊢
        omega
      rw [whole]
      exact .literal digits value numeral
  | symbol name legal => exact .symbol name legal
  | compute dest comp jump => exact .compute dest comp jump

theorem lines_of_listing (assembled : listing source = .ok entries) :
    (entries.map fun entry => (⟨entry.line, entry.source⟩ : SourceLine)) =
      (clean source).filter fun line => !line.isLabel := by
  obtain ⟨program, parsed, encoded⟩ := program_of_listing assembled
  obtain ⟨lines, read⟩ := parseLines_cases parsed
  obtain ⟨table, _, declared, _⟩ := encodeProgram_cases encoded
  have labels : ∀ line ∈ program, (!line.toSourceLine.isLabel) = line.statement.instruction?.isSome := by
    intro line member
    rw [SourceLine.isLabel, opensLabel_of_readStatement (read line member)]
    cases line.statement.instruction? <;> rfl
  rw [← lines, List.filter_map, declared, List.map_map]
  calc
    (instructions program).zipIdx.map _ = ((instructions program).zipIdx.map Prod.fst).map Prod.fst := by
      rw [List.map_map]
      rfl
    _ = (program.filter fun line => line.statement.instruction?.isSome).map ParsedLine.toSourceLine := by
      rw [List.zipIdx_map_fst, sourceLine_of_instructions]
    _ = _ := by
      rw [List.filter_congr fun line member => (labels line member).symm]
      rfl

theorem sources_of_listing (assembled : listing source = .ok entries) :
    (entries.map fun entry => entry.source.toList) =
      (cleanedLines source.toList).filter fun line => !opensLabel line := by
  rw [← map_text_clean, List.filter_map]
  change _ = ((clean source).filter fun line => !line.isLabel).map _
  rw [← lines_of_listing assembled, List.map_map]
  rfl

theorem linked_of_listing (assembled : listing source = .ok entries) :
    ∃ statements, Reads source.toList statements ∧ Linked statements (entries.map Entry.word) := by
  obtain ⟨program, parsed, encoded⟩ := program_of_listing assembled
  exact ⟨statementsOf program, reads_of_parseLines parsed, linked_of_encodeProgram encoded⟩

theorem length_of_listing (assembled : listing source = .ok entries) : entries.length = slots source := by
  obtain ⟨statements, reads, linked⟩ := linked_of_listing assembled
  rw [slots_of_reads reads, ← List.length_map (f := Entry.word), linked.words_eq, List.length_map]

/-- A listing has one entry for each cleaned line that declares no label, and
the word of the entry is the number that its line denotes in the program. -/
theorem listing_declares (assembled : listing source = .ok entries) :
    ∃ program : List ParsedLine,
      program.map ParsedLine.toSourceLine = clean source ∧
      (∀ line ∈ program, Written line.text.toList line.statement) ∧
      (entries.map fun entry => (⟨entry.line, entry.source⟩ : SourceLine)) =
        (clean source).filter (fun line => !line.isLabel) ∧
      entries.map Entry.index = List.range entries.length ∧
      (∀ entry ∈ entries, Denotes (statementsOf program) entry.source.toList entry.word.toNat) ∧
      assemble source = .ok ("\n".intercalate (entries.map fun entry => Word.binary entry.word)) ∧
      ∀ entry ∈ entries, (Word.binary entry.word).length = 16 ∧
        Nat.ofDigitChars 2 (Word.binary entry.word).toList 0 = entry.word.toNat := by
  obtain ⟨program, parsed, encoded⟩ := program_of_listing assembled
  obtain ⟨lines, read⟩ := parseLines_cases parsed
  obtain ⟨table, _, declared, fits⟩ := encodeProgram_cases encoded
  refine ⟨program, lines, fun line member => written_of_readStatement (read line member),
    lines_of_listing assembled, ?_, ?_, ?_,
    fun entry _ => ⟨Word.length_binary entry.word, ofDigitChars_binary entry.word⟩⟩
  · rw [declared, List.length_map, List.length_zipIdx, List.range_eq_range', ← List.zipIdx_map_snd,
      List.map_map]
    rfl
  · intro entry member
    rw [declared] at member
    obtain ⟨⟨⟨line, body⟩, index⟩, inside, rfl⟩ := List.mem_map.mp member
    have listed : (line, body) ∈ instructions program := List.fst_mem_of_mem_zipIdx inside
    obtain ⟨parsed, isParsed, rfl, kind⟩ := mem_of_mem_instructions listed
    have written := written_of_readStatement (read parsed isParsed)
    rw [kind] at written
    have fitting := fits (parsed.toSourceLine, body) listed
    rw [declaredEntry, toNat_word fitting]
    exact denotes_of_written written fitting
  · rw [assemble, assembled]
    rfl

/-- A name that is declared behind its use is no variable. -/
theorem listing_declares_forward_reference :
    listing "@END\n@x\n(END)\n0;JMP" =
        .ok [⟨0, 1, "@END", 2⟩, ⟨1, 2, "@x", 16⟩, ⟨2, 4, "0;JMP", 0xEA87⟩] ∧
      ∃ program : List ParsedLine,
        program.map ParsedLine.toSourceLine = clean "@END\n@x\n(END)\n0;JMP" ∧
        ∀ entry ∈ [⟨0, 1, "@END", 2⟩, ⟨1, 2, "@x", 16⟩, (⟨2, 4, "0;JMP", 0xEA87⟩ : Entry)],
          Denotes (statementsOf program) entry.source.toList entry.word.toNat := by
  have assembled : listing "@END\n@x\n(END)\n0;JMP" =
      .ok [⟨0, 1, "@END", 2⟩, ⟨1, 2, "@x", 16⟩, ⟨2, 4, "0;JMP", 0xEA87⟩] :=
    eq_ok_of_toOption (by decide +kernel)
  obtain ⟨program, lines, _, _, _, denotes, _⟩ := listing_declares assembled
  exact ⟨assembled, program, lines, denotes⟩

end Hack.Assembly
