import Hack.Proofs.Assembly.Linking
import Hack.Proofs.Assembly.Misreading

namespace Hack.Assembly

/-! Which fault of a source is reported.

A source is judged three times, each time from its first line to its last: its
lines are read, its labels are bound, and its instructions are encoded.  The
first fault that is found is reported, and what is wrong with a line, a label or
an instruction depends on the lines before it, not on a table.
-/

open Hack.Text

/-- Every element passes a check that knows the elements before it. -/
def Passes {α φ : Type} (check : List α → α → Option φ) (list : List α) : Prop :=
  ∀ front item back, list = front ++ item :: back → check front item = none

/-- The first element that a check finds a fault with, and the fault. -/
def FailsFirst {α φ : Type} (check : List α → α → Option φ) (list : List α) (item : α) (fault : φ) : Prop :=
  ∃ front back, list = front ++ item :: back ∧ Passes check front ∧ check front item = some fault

structure Writes (source : String) (program : List ParsedLine) : Prop where
  lines : program.map ParsedLine.toSourceLine = clean source
  written : ∀ line ∈ program, Written line.text.toList line.statement

/-- What is wrong with a label behind other statements.  That its name is taken
comes before that it stands too far back. -/
def labelFault? (front : List Statement) : Statement → Option Fault
  | .label name =>
      if (predefined.lookup name).isSome ∨ .label name ∈ front then some (.duplicateLabel name)
      else if maxAddress < (code front).length then some (.addressOverflow (code front).length)
      else none
  | .instruction _ => none

/-- So many variables have addresses that fit into an instruction. -/
def maxVariables : Nat := maxAddress + 1 - firstVariable

/-- What is wrong with an instruction of a program, given the instructions before it. -/
def instructionFault? (statements : List Statement) (used : List Instruction) : Instruction → Option Fault
  | .address (.literal value) => if maxAddress < value then some (.addressOverflow value) else none
  | .address (.symbol name) =>
      if fixedAddress? statements name = none ∧ name ∉ variableUses statements used ∧
          (variableUses statements used).dedup.length = maxVariables then
        some (.addressOverflow (maxAddress + 1))
      else none
  | .compute _ _ _ => none

def checkLabel (front : List ParsedLine) (line : ParsedLine) : Option Fault :=
  labelFault? (statementsOf front) line.statement

def checkInstruction (statements : List Statement) (front : List (SourceLine × Instruction))
    (item : SourceLine × Instruction) : Option Fault :=
  instructionFault? statements (front.map Prod.snd) item.2

/-- The error for a source that cannot be assembled. -/
inductive Rejected (source : String) : Error → Prop where
  | line {front back : List SourceLine} {line : SourceLine} {fault : Fault}
      (split : clean source = front ++ line :: back)
      (earlier : ∀ other ∈ front, ∃ statement, Written other.text.toList statement)
      (unreadable : Unreadable line.text.toList fault) : Rejected source ⟨.line line.number, fault⟩
  | label {program : List ParsedLine} {line : ParsedLine} {fault : Fault} (writes : Writes source program)
      (first : FailsFirst checkLabel program line fault) : Rejected source ⟨.line line.number, fault⟩
  | instruction {program : List ParsedLine} {item : SourceLine × Instruction} {fault : Fault}
      (writes : Writes source program) (labels : Passes checkLabel program)
      (first : FailsFirst (checkInstruction (statementsOf program)) (instructions program) item fault) :
      Rejected source ⟨.line item.1.number, fault⟩

section Checks

variable {α φ : Type} {check : List α → α → Option φ} {first item : α} {rest list : List α} {fault : φ}

theorem passes_cons :
    Passes check (first :: rest) ↔ check [] first = none ∧ Passes (fun front => check (first :: front)) rest := by
  constructor
  · intro passes
    exact ⟨passes [] first rest rfl, fun front item back split => passes (first :: front) item back (by rw [split]; rfl)⟩
  · rintro ⟨here, later⟩ front item back split
    cases front with
    | nil =>
        obtain ⟨rfl, rfl⟩ := List.cons.inj split
        exact here
    | cons other front =>
        obtain ⟨rfl, tail⟩ := List.cons.inj split
        exact later front item back tail

theorem failsFirst_cons : FailsFirst check (first :: rest) item fault ↔
    (item = first ∧ check [] first = some fault) ∨
      (check [] first = none ∧ FailsFirst (fun front => check (first :: front)) rest item fault) := by
  constructor
  · rintro ⟨front, back, split, passes, failed⟩
    cases front with
    | nil =>
        obtain ⟨rfl, rfl⟩ := List.cons.inj split
        exact .inl ⟨rfl, failed⟩
    | cons other front =>
        obtain ⟨rfl, rfl⟩ := List.cons.inj split
        obtain ⟨here, later⟩ := passes_cons.mp passes
        exact .inr ⟨here, front, back, rfl, later, failed⟩
  · rintro (⟨rfl, failed⟩ | ⟨here, front, back, rfl, passes, failed⟩)
    · exact ⟨[], rest, rfl, fun front item back split => by simp at split, failed⟩
    · exact ⟨first :: front, back, rfl, passes_cons.mpr ⟨here, passes⟩, failed⟩

theorem passes_or_failsFirst (check : List α → α → Option φ) (list : List α) :
    Passes check list ∨ ∃ item fault, FailsFirst check list item fault := by
  induction list generalizing check with
  | nil => exact .inl fun front item back split => by simp at split
  | cons first rest ih =>
      cases here : check [] first with
      | some fault => exact .inr ⟨first, fault, failsFirst_cons.mpr (.inl ⟨rfl, here⟩)⟩
      | none =>
          rcases ih fun front => check (first :: front) with later | ⟨item, fault, failed⟩
          · exact .inl (passes_cons.mpr ⟨here, later⟩)
          · exact .inr ⟨item, fault, failsFirst_cons.mpr (.inr ⟨here, failed⟩)⟩

theorem FailsFirst.mem (failed : FailsFirst check list item fault) : item ∈ list := by
  obtain ⟨front, back, rfl, _⟩ := failed
  simp

end Checks

variable {source : String} {program : List ParsedLine} {statements front : List Statement} {statement : Statement}
variable {table : SymbolTable} {name : String} {fault : Fault} {error : Error}
variable {used rest : List Instruction} {body : Instruction}

theorem parseLines_eq_ok_iff : parseLines (clean source) = .ok program ↔ Writes source program := by
  constructor
  · intro parsed
    obtain ⟨lines, read⟩ := parseLines_cases parsed
    exact ⟨lines, fun line member => written_of_readStatement (read line member)⟩
  · intro writes
    rw [← writes.lines, parseLines, mapM_eq_ok_iff, List.forall₂_map_left_iff]
    refine List.forall₂_same.mpr fun line member => ?_
    rw [SourceLine.parse, readStatement_of_written (writes.written line member)]
    rfl

theorem SourceLine.exists_parse_iff {line : SourceLine} :
    (∃ parsed, line.parse = .ok parsed) ↔ ∃ statement, Written line.text.toList statement := by
  simp only [← readStatement_eq_ok_iff, SourceLine.parse]
  cases readStatement line.text.toList with
  | ok statement => exact ⟨fun _ => ⟨statement, rfl⟩, fun _ => ⟨_, rfl⟩⟩
  | error fault =>
      constructor
      · rintro ⟨_, read⟩
        cases read
      · rintro ⟨_, read⟩
        cases read

theorem SourceLine.parse_eq_error_iff {line : SourceLine} : line.parse = .error error ↔
    ∃ fault, Unreadable line.text.toList fault ∧ error = ⟨.line line.number, fault⟩ := by
  simp only [← readStatement_eq_error_iff, SourceLine.parse]
  cases readStatement line.text.toList with
  | ok statement =>
      constructor
      · intro read
        cases read
      · rintro ⟨_, read, _⟩
        cases read
  | error fault =>
      constructor
      · rintro ⟨⟩
        exact ⟨fault, rfl, rfl⟩
      · rintro ⟨_, ⟨⟩, rfl⟩
        rfl

theorem parseLines_eq_error_iff : parseLines (clean source) = .error error ↔
    ∃ front line back fault, clean source = front ++ line :: back ∧
      (∀ other ∈ front, ∃ statement, Written other.text.toList statement) ∧
      Unreadable line.text.toList fault ∧ error = ⟨.line line.number, fault⟩ := by
  simp only [parseLines, mapM_eq_error_iff, SourceLine.exists_parse_iff, SourceLine.parse_eq_error_iff]
  constructor
  · rintro ⟨front, line, back, split, earlier, fault, unreadable, rfl⟩
    exact ⟨front, line, back, fault, split, earlier, unreadable, rfl⟩
  · rintro ⟨front, line, back, fault, split, earlier, unreadable, rfl⟩
    exact ⟨front, line, back, split, earlier, fault, unreadable, rfl⟩

/-- A table that knows the predefined names and the labels among some statements. -/
def Knows (front : List Statement) (table : SymbolTable) : Prop :=
  ∀ name, table.contains name = true ↔ (predefined.lookup name).isSome ∨ .label name ∈ front

theorem knows_initial : Knows [] .initial := by
  intro name
  simp [contains_eq_isSome, find?_initial]

theorem Knows.instruction (knows : Knows front table) (body : Instruction) :
    Knows (front ++ [.instruction body]) table := by
  intro name
  rw [knows name]
  simp

theorem Knows.bindLabel (knows : Knows front table) (name : String) :
    (∃ next, table.bindLabel name (code front).length = .ok next ∧ Knows (front ++ [.label name]) next ∧
        labelFault? front (.label name) = none) ∨
      ∃ fault, table.bindLabel name (code front).length = .error fault ∧
        labelFault? front (.label name) = some fault := by
  simp only [SymbolTable.bindLabel, labelFault?, ← knows name]
  split
  · exact .inr ⟨_, rfl, rfl⟩
  · split
    · exact .inr ⟨_, rfl, rfl⟩
    · refine .inl ⟨_, rfl, fun other => ?_, rfl⟩
      rw [contains_eq_isSome, find?_insert]
      split
      · next same => simp [same]
      · next different =>
          change (table.find? other).isSome = true ↔ _
          rw [← contains_eq_isSome, knows other]
          simp [Ne.symm different]

theorem Knows.bindLabels (knows : Knows front table) :
    (Passes (fun more line => labelFault? (front ++ statementsOf more) line.statement) program →
        ∃ after, bindLabels table (code front).length program = .ok after) ∧
      ∀ line fault, FailsFirst (fun more line => labelFault? (front ++ statementsOf more) line.statement) program line
          fault → bindLabels table (code front).length program = .error ⟨.line line.number, fault⟩ := by
  -- What is wrong with a label depends on all statements before it, so they go along with the table.
  induction program generalizing front table with
  | nil => exact ⟨fun _ => ⟨table, rfl⟩, fun line fault failed => by simpa using failed.mem⟩
  | cons first rest ih =>
      have moved : ∀ more, front ++ statementsOf (first :: more) = (front ++ [first.statement]) ++ statementsOf more := by
        intro more
        simp [statementsOf]
      have here : front ++ statementsOf [] = front := by simp [statementsOf]
      simp only [passes_cons, failsFirst_cons, moved, here]
      simp only [Assembly.bindLabels]
      cases kind : first.statement with
      | instruction body =>
          have next := ih (knows.instruction body)
          simp only [code_append, code_instruction, code_nil, List.length_append, List.length_singleton] at next
          refine ⟨fun passes => next.1 passes.2, fun line fault failed => ?_⟩
          rcases failed with ⟨_, impossible⟩ | ⟨_, failed⟩
          · cases impossible
          · exact next.2 line fault failed
      | label name =>
          rcases knows.bindLabel name with ⟨after, bound, knowsNext, fine⟩ | ⟨wrong, unbound, fails⟩
          · have next := ih knowsNext
            simp only [code_append, code_label, code_nil, List.append_nil] at next
            simp only [bound, fine]
            refine ⟨fun passes => next.1 passes.2, fun line fault failed => ?_⟩
            rcases failed with ⟨_, impossible⟩ | ⟨_, failed⟩
            · cases impossible
            · exact next.2 line fault failed
          · simp only [unbound, fails]
            refine ⟨fun passes => ?_, fun line fault failed => ?_⟩
            · cases passes.1
            · rcases failed with ⟨rfl, same⟩ | ⟨impossible, _⟩
              · cases same
                rfl
              · cases impossible

/-- The variables that have been used have cells, so there is at most one too many. -/
theorem Resolved.nextVariable_le (resolved : Resolved statements used table) :
    table.nextVariable ≤ maxAddress + 1 := by
  rw [resolved.next]
  by_cases none : variableUses statements used = []
  · rw [none]
    decide
  · obtain ⟨name, member, cell⟩ := exists_last_variable none
    have free : fixedAddress? statements name = .none := by
      simpa using (List.mem_filter.mp member).2
    have known : table.find? name = some (variableCell (variableUses statements used) name) := by
      rw [resolved.find name, free, Option.none_or, if_pos member]
    have within := resolved.bounded name _ known
    omega

theorem Resolved.encode_outcome (resolved : Resolved statements used table)
    (whole : code statements = used ++ body :: rest) :
    (∃ word after, body.encode table = .ok (word, after) ∧ Resolved statements (used ++ [body]) after ∧
        instructionFault? statements used body = none) ∨
      ∃ fault, body.encode table = .error fault ∧ instructionFault? statements used body = some fault := by
  have step : ∀ {word : Word} {after : SymbolTable}, body.encode table = .ok (word, after) →
      Resolved statements (used ++ [body]) after := fun encoded => (resolved.encode encoded whole).2.2
  cases body with
  | compute dest comp jump => exact .inl ⟨_, _, rfl, step rfl, rfl⟩
  | address operand =>
      cases operand with
      | literal value =>
          simp only [Instruction.encode, instructionFault?] at step ⊢
          split
          · exact .inr ⟨_, rfl, rfl⟩
          · next within => exact .inl ⟨_, _, rfl, step (if_neg within), rfl⟩
      | symbol name =>
          simp only [instructionFault?]
          cases known : table.find? name with
          | some address =>
              have encoded : (Instruction.address (.symbol name)).encode table =
                  .ok (BitVec.ofNat 16 address, table) := by
                rw [Instruction.encode, SymbolTable.resolve_of_find known]
                rfl
              refine .inl ⟨_, _, encoded, step encoded, if_neg ?_⟩
              rintro ⟨free, unused, _⟩
              rw [resolved.find name, free, Option.none_or, if_neg unused] at known
              contradiction
          | none =>
              have unknown := known
              rw [resolved.find name, Option.or_eq_none_iff] at unknown
              obtain ⟨free, unused⟩ := unknown
              have new : name ∉ variableUses statements used := by
                intro member
                simp [member] at unused
              -- All cells are taken, and not more than all, exactly when there is no room for a new name.
              have count : (variableUses statements used).dedup.length = maxVariables ↔ maxAddress < table.nextVariable := by
                have least := resolved.nextVariable_le
                rw [resolved.next] at least ⊢
                simp only [maxVariables, maxAddress, firstVariable] at least ⊢
                omega
              simp only [free, new, count, true_and, not_false_eq_true]
              split
              · next full =>
                  have last : table.nextVariable = maxAddress + 1 := by
                    have least := resolved.nextVariable_le
                    omega
                  refine .inr ⟨_, ?_, rfl⟩
                  rw [Instruction.encode, SymbolTable.resolve, known, if_pos full, last]
                  rfl
              · next room =>
                  have encoded : (Instruction.address (.symbol name)).encode table =
                      .ok (BitVec.ofNat 16 table.nextVariable, { addresses := table.addresses.insert name table.nextVariable, allocated := table.allocated.push name }) := by
                    simp only [Instruction.encode, SymbolTable.resolve, known, if_neg room]
                    rfl
                  exact .inl ⟨_, _, encoded, step encoded, rfl⟩

theorem encodeEntry_ok (index : Nat) {item : SourceLine × Instruction} {word : Word} {after : SymbolTable}
    (encoded : item.2.encode table = .ok (word, after)) :
    encodeEntry (item, index) table = .ok (⟨index, item.1.number, item.1.text, word⟩, after) := by
  simp only [encodeEntry, encoded]
  rfl

theorem encodeEntry_error (index : Nat) {item : SourceLine × Instruction} (failed : item.2.encode table = .error fault) :
    encodeEntry (item, index) table = .error ⟨.line item.1.number, fault⟩ := by
  simp only [encodeEntry, failed]
  rfl

theorem Resolved.encodeAll_outcome (index : Nat) {items : List (SourceLine × Instruction)}
    (resolved : Resolved statements used table) (whole : code statements = used ++ items.map Prod.snd) :
    (Passes (fun front item => instructionFault? statements (used ++ front.map Prod.snd) item.2) items →
        ∃ entries after, (items.zipIdx index).mapM encodeEntry table = .ok (entries, after)) ∧
      ∀ item fault, FailsFirst (fun front item => instructionFault? statements (used ++ front.map Prod.snd) item.2)
          items item fault →
        (items.zipIdx index).mapM encodeEntry table = .error ⟨.line item.1.number, fault⟩ := by
  induction items generalizing used index table with
  | nil => exact ⟨fun _ => ⟨[], table, rfl⟩, fun item fault failed => by simpa using failed.mem⟩
  | cons first rest ih =>
      have moved : ∀ front : List (SourceLine × Instruction),
          used ++ (first :: front).map Prod.snd = (used ++ [first.2]) ++ front.map Prod.snd := by simp
      simp only [passes_cons, failsFirst_cons, moved, List.map_nil, List.append_nil, List.zipIdx_cons]
      rcases resolved.encode_outcome whole with ⟨word, after, encoded, next, fine⟩ | ⟨wrong, unencoded, fails⟩
      · obtain ⟨passing, failing⟩ := ih (index + 1) next (by simpa using whole)
        have one := encodeEntry_ok index encoded
        refine ⟨fun ⟨_, passes⟩ => ?_, fun item fault failed => ?_⟩
        · obtain ⟨entries, last, more⟩ := passing passes
          exact ⟨_, last, runM_cons_ok one more⟩
        · rcases failed with ⟨_, impossible⟩ | ⟨_, failed⟩
          · rw [fine] at impossible
            contradiction
          · exact runM_cons_error one (failing item fault failed)
      · have one := encodeEntry_error index unencoded
        refine ⟨fun ⟨impossible, _⟩ => ?_, fun item fault failed => ?_⟩
        · rw [fails] at impossible
          contradiction
        · rcases failed with ⟨rfl, same⟩ | ⟨impossible, _⟩
          · rw [fails] at same
            cases same
            exact runM_failed one
          · rw [fails] at impossible
            contradiction

theorem bindLabels_checked :
    (Passes checkLabel program → ∃ table, bindLabels .initial 0 program = .ok table) ∧
      ∀ line fault, FailsFirst checkLabel program line fault →
        bindLabels .initial 0 program = .error ⟨.line line.number, fault⟩ :=
  knows_initial.bindLabels

theorem encodeAll_checked (bound : bindLabels .initial 0 program = .ok table) :
    (Passes (checkInstruction (statementsOf program)) (instructions program) →
        ∃ entries after, (encodeAll (instructions program)).run table = .ok (entries, after)) ∧
      ∀ item fault, FailsFirst (checkInstruction (statementsOf program)) (instructions program) item fault →
        (encodeAll (instructions program)).run table = .error ⟨.line item.1.number, fault⟩ :=
  (resolved_of_bindLabels bound).encodeAll_outcome 0 (by rw [instructions_map_snd, List.nil_append])

theorem listing_of_writes (writes : Writes source program) : listing source = encodeProgram program := by
  rw [listing, parseLines_eq_ok_iff.mpr writes]
  rfl

theorem encodeProgram_of_failsFirst_label {line : ParsedLine} (first : FailsFirst checkLabel program line fault) :
    encodeProgram program = .error ⟨.line line.number, fault⟩ := by
  rw [encodeProgram, bindLabels_checked.2 line fault first]
  rfl

theorem encodeProgram_of_failsFirst_instruction {item : SourceLine × Instruction} (labels : Passes checkLabel program)
    (first : FailsFirst (checkInstruction (statementsOf program)) (instructions program) item fault) :
    encodeProgram program = .error ⟨.line item.1.number, fault⟩ := by
  obtain ⟨table, bound⟩ := bindLabels_checked.1 labels
  rw [encodeProgram, bound]
  change (encodeAll (instructions program)).run table >>= _ = _
  rw [(encodeAll_checked bound).2 item fault first]
  rfl

theorem exists_encodeProgram_of_passes (labels : Passes checkLabel program)
    (code : Passes (checkInstruction (statementsOf program)) (instructions program)) :
    ∃ entries, encodeProgram program = .ok entries := by
  obtain ⟨table, bound⟩ := bindLabels_checked.1 labels
  obtain ⟨entries, after, encoded⟩ := (encodeAll_checked bound).1 code
  refine ⟨entries, ?_⟩
  rw [encodeProgram, bound]
  change (encodeAll (instructions program)).run table >>= _ = _
  rw [encoded]
  rfl

theorem listing_of_rejected (rejected : Rejected source error) : listing source = .error error := by
  cases rejected with
  | line split earlier unreadable =>
      rw [listing, parseLines_eq_error_iff.mpr ⟨_, _, _, _, split, earlier, unreadable, rfl⟩]
      rfl
  | label writes first => exact (listing_of_writes writes).trans (encodeProgram_of_failsFirst_label first)
  | instruction writes labels first =>
      exact (listing_of_writes writes).trans (encodeProgram_of_failsFirst_instruction labels first)

theorem rejected_of_listing (failed : listing source = .error error) : Rejected source error := by
  cases parsed : parseLines (clean source) with
  | error unread =>
      obtain ⟨front, line, back, fault, split, earlier, unreadable, rfl⟩ := parseLines_eq_error_iff.mp parsed
      rw [listing, parsed] at failed
      cases failed
      exact .line split earlier unreadable
  | ok program =>
      have writes := parseLines_eq_ok_iff.mp parsed
      rw [listing_of_writes writes] at failed
      rcases passes_or_failsFirst checkLabel program with labels | ⟨line, fault, first⟩
      · rcases passes_or_failsFirst (checkInstruction (statementsOf program)) (instructions program) with
          code | ⟨item, fault, first⟩
        · obtain ⟨entries, encoded⟩ := exists_encodeProgram_of_passes labels code
          rw [encoded] at failed
          contradiction
        · rw [encodeProgram_of_failsFirst_instruction labels first] at failed
          cases failed
          exact .instruction writes labels first
      · rw [encodeProgram_of_failsFirst_label first] at failed
        cases failed
        exact .label writes first

/-- The place of an error is a line of the source that holds more than blanks and comments. -/
theorem Rejected.place (rejected : Rejected source error) :
    ∃ line ∈ clean source, error.place = .line line.number := by
  cases rejected with
  | @line _ _ line _ split => exact ⟨line, by simp [split], rfl⟩
  | @label program line _ writes first =>
      exact ⟨line.toSourceLine, writes.lines ▸ List.mem_map_of_mem first.mem, rfl⟩
  | @instruction program item _ writes _ first =>
      have listed : (item.1, item.2) ∈ instructions program := first.mem
      obtain ⟨parsed, member, same, _⟩ := mem_of_mem_instructions listed
      exact ⟨item.1, writes.lines ▸ same ▸ List.mem_map_of_mem member, rfl⟩

theorem mem_clean {line : SourceLine} (member : line ∈ clean source) :
    ∃ raw, 1 ≤ line.number ∧ (lines source.toList)[line.number - 1]? = some raw ∧ cleanLine raw = line.text.toList := by
  obtain ⟨⟨raw, number⟩, inside, kept⟩ := List.mem_filterMap.mp member
  obtain ⟨least, _, here⟩ := List.mem_zipIdx inside
  simp only at kept
  split at kept
  · contradiction
  · cases kept
    refine ⟨raw, least, ?_, by simp⟩
    rw [here]
    simp

/-- A source is rejected with the first fault of the first stage that finds
one, at the line where it stands. -/
theorem listing_fails_iff (source : String) (error : Error) :
    (listing source = .error error ↔ Rejected source error) ∧
      (assemble source = .error error ↔ Rejected source error) ∧
      (Rejected source error → ∃ line ∈ clean source, error.place = .line line.number ∧
        ∃ raw, 1 ≤ line.number ∧ (lines source.toList)[line.number - 1]? = some raw ∧
          cleanLine raw = line.text.toList) := by
  have listed : listing source = .error error ↔ Rejected source error := ⟨rejected_of_listing, listing_of_rejected⟩
  have assembled : assemble source = .error error ↔ listing source = .error error := by
    unfold assemble
    cases listing source with
    | error other => simp [Except.map]
    | ok entries => simp [Except.map]
  refine ⟨listed, assembled.trans listed, fun rejected => ?_⟩
  obtain ⟨line, member, place⟩ := rejected.place
  exact ⟨line, member, place, mem_clean member⟩

end Hack.Assembly
