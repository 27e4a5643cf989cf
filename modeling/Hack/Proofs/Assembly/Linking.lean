import Mathlib.Data.List.Induction
import Mathlib.Data.List.Perm.Subperm
import Hack.Proofs.Assembly.TwoPass

namespace Hack.Assembly

open Hack.Text

def Statement.declares? : Statement → Option String
  | .label name => some name
  | .instruction _ => none

def Statement.number? : Statement → Option Nat
  | .instruction (.address (.literal value)) => some value
  | _ => none

def labels (statements : List Statement) : List String :=
  statements.filterMap Statement.declares?

def numbers (statements : List Statement) : List Nat :=
  statements.filterMap Statement.number?

/-- The names that are used in a program but neither predefined nor declared in
it, once for every use. -/
def unbound (statements : List Statement) : List String :=
  ((code statements).filterMap Instruction.name?).filter fun name =>
    (predefined.lookup name).isNone && name ∉ labels statements

structure Linkable (statements : List Statement) : Prop where
  distinct : (labels statements).Nodup
  unreserved : ∀ name ∈ labels statements, predefined.lookup name = none
  placed : ∀ front back name, statements = front ++ .label name :: back → (code front).length ≤ maxAddress
  loaded : ∀ value ∈ numbers statements, value ≤ maxAddress
  cells : firstVariable + (unbound statements).dedup.length ≤ maxAddress + 1

variable {statements front back : List Statement} {name other : String} {body : Instruction} {source : String}
variable {table after : SymbolTable} {program : List ParsedLine} {index address : Nat} {words : List Word}
variable {used rest : List Instruction} {uses : List String}

@[simp] theorem labels_nil : labels [] = [] := rfl

@[simp] theorem labels_label : labels (.label name :: back) = name :: labels back := rfl

@[simp] theorem labels_instruction : labels (.instruction body :: back) = labels back := rfl

@[simp] theorem labels_append : labels (front ++ back) = labels front ++ labels back :=
  List.filterMap_append

theorem mem_labels : name ∈ labels statements ↔ .label name ∈ statements := by
  rw [labels, List.mem_filterMap]
  constructor
  · rintro ⟨statement, member, declares⟩
    cases statement with
    | label declared =>
        cases declares
        exact member
    | instruction body => contradiction
  · exact fun member => ⟨_, member, rfl⟩

theorem mem_numbers {value : Nat} :
    value ∈ numbers statements ↔ .address (.literal value) ∈ code statements := by
  rw [numbers, code, List.mem_filterMap, List.mem_filterMap]
  constructor
  · rintro ⟨statement, member, loads⟩
    unfold Statement.number? at loads
    split at loads
    · cases loads
      exact ⟨_, member, rfl⟩
    · contradiction
  · rintro ⟨statement, member, holds⟩
    cases statement with
    | label name => contradiction
    | instruction body =>
        cases holds
        exact ⟨_, member, rfl⟩

theorem unbound_eq_variableUses (statements : List Statement) :
    unbound statements = variableUses statements (code statements) := by
  refine List.filter_congr fun name _ => ?_
  rw [fixedAddress?, Option.isNone_or, Bool.eq_iff_iff]
  simp only [Bool.and_eq_true, decide_eq_true_iff, Option.isNone_iff_eq_none, labelPosition?_eq_none_iff, mem_labels]

theorem variableCell_lt (member : name ∈ uses) : variableCell uses name < firstVariable + uses.dedup.length := by
  induction uses using List.reverseRecOn with
  | nil => contradiction
  | append_singleton front last ih =>
      rw [length_dedup_append_singleton]
      by_cases inFront : name ∈ front
      · have below := ih inFront
        rw [variableCell_append inFront]
        split <;> omega
      · have same : name = last := by simpa [inFront] using member
        subst same
        rw [variableCell_append_new inFront, if_neg inFront]
        omega

theorem variableCell_injective (member : name ∈ uses) (otherMember : other ∈ uses)
    (same : variableCell uses name = variableCell uses other) : name = other := by
  -- The last use is that of an old variable, or its cell comes behind all others.
  induction uses using List.reverseRecOn with
  | nil => contradiction
  | append_singleton front last ih =>
      by_cases inFront : name ∈ front
      · by_cases otherInFront : other ∈ front
        · rw [variableCell_append inFront, variableCell_append otherInFront] at same
          exact ih inFront otherInFront same
        · have isLast : other = last := by simpa [otherInFront] using otherMember
          have below := variableCell_lt inFront
          subst isLast
          rw [variableCell_append inFront, variableCell_append_new otherInFront] at same
          omega
      · have isLast : name = last := by simpa [inFront] using member
        subst isLast
        by_cases otherInFront : other ∈ front
        · have below := variableCell_lt otherInFront
          rw [variableCell_append otherInFront, variableCell_append_new inFront] at same
          omega
        · have isLast : other = name := by simpa [otherInFront] using otherMember
          exact isLast.symm

theorem exists_last_variable (used : uses ≠ []) :
    ∃ name ∈ uses, variableCell uses name + 1 = firstVariable + uses.dedup.length := by
  induction uses using List.reverseRecOn with
  | nil => contradiction
  | append_singleton front last ih =>
      rw [length_dedup_append_singleton]
      by_cases inFront : last ∈ front
      · obtain ⟨name, member, cell⟩ := ih (List.ne_nil_of_mem inFront)
        refine ⟨name, List.mem_append_left _ member, ?_⟩
        rw [variableCell_append member, cell, if_pos inFront]
      · refine ⟨last, by simp, ?_⟩
        rw [variableCell_append_new inFront, if_neg inFront]
        omega

theorem nodup_labels (fresh : ∀ front back name, statements = front ++ .label name :: back → .label name ∉ front) :
    (labels statements).Nodup := by
  induction statements using List.reverseRecOn with
  | nil => exact .nil
  | append_singleton front last ih =>
      have earlier : (labels front).Nodup := ih fun before behind name split =>
        fresh before (behind ++ [last]) name (by simp [split])
      cases last with
      | instruction body => simpa using earlier
      | label name =>
          have new : name ∉ labels front := mt mem_labels.mp (fresh front [] name rfl)
          rw [labels_append, labels_label]
          exact List.nodup_append_comm.mp (List.nodup_cons.mpr ⟨by simpa using new, by simpa [labels] using earlier⟩)

theorem Linked.linkable (linked : Linked statements words) : Linkable statements := by
  refine ⟨nodup_labels fun front back name split => ?_, fun name member => ?_,
    fun front back name split => (linked.label split).2.2,
    fun value member => linked.fits _ (mem_numbers.mp member), ?_⟩
  · exact labelPosition?_eq_none_iff.mp (linked.label split).2.1
  · obtain ⟨front, back, split⟩ := List.append_of_mem (mem_labels.mp member)
    exact (linked.label split).1
  · rw [unbound_eq_variableUses]
    by_cases none : variableUses statements (code statements) = []
    · rw [none]
      decide
    · obtain ⟨name, member, cell⟩ := exists_last_variable none
      obtain ⟨named, free⟩ := List.mem_filter.mp member
      obtain ⟨body, inCode, name?⟩ := List.mem_filterMap.mp named
      have fits := linked.fits body inCode
      cases body with
      | compute dest comp jump => contradiction
      | address operand =>
          cases operand with
          | literal value => contradiction
          | symbol symbol =>
              cases name?
              have within : addressOf statements name ≤ maxAddress := fits
              rw [addressOf, Option.isNone_iff_eq_none.mp free, Option.getD_none] at within
              omega

/-- Labels that are new are all bound, up to one that comes too late. -/
theorem bindLabels_outcome (index : Nat) (distinct : (labels (statementsOf program)).Nodup)
    (fresh : ∀ name ∈ labels (statementsOf program), table.find? name = none) :
    (∃ after, bindLabels table index program = .ok after) ∨
      ∃ front back name place, statementsOf program = front ++ .label name :: back ∧
        maxAddress < index + (code front).length ∧
        bindLabels table index program = .error ⟨place, .addressOverflow (index + (code front).length)⟩ := by
  induction program generalizing table index with
  | nil => exact .inl ⟨table, rfl⟩
  | cons line rest ih =>
      simp only [bindLabels]
      cases kind : line.statement with
      | instruction body =>
          have whole : statementsOf (line :: rest) = .instruction body :: statementsOf rest := by
            simp [statementsOf, kind]
          rw [whole] at distinct fresh ⊢
          rcases ih (index + 1) distinct fresh with bound | ⟨front, back, name, place, split, late, failed⟩
          · exact .inl bound
          · have moved : index + (code (.instruction body :: front)).length = index + 1 + (code front).length := by
              rw [code_instruction, List.length_cons, Nat.add_assoc, Nat.add_comm 1]
            refine .inr ⟨.instruction body :: front, back, name, place, by rw [split]; rfl, ?_, ?_⟩
            · rw [moved]
              exact late
            · rw [moved]
              exact failed
      | label name =>
          have whole : statementsOf (line :: rest) = .label name :: statementsOf rest := by simp [statementsOf, kind]
          rw [whole] at distinct fresh ⊢
          obtain ⟨new, distinct⟩ := List.nodup_cons.mp distinct
          obtain ⟨unknown, fresh⟩ := List.forall_mem_cons.mp fresh
          by_cases late : maxAddress < index
          · refine .inr ⟨[], _, name, .line line.number, rfl, late, ?_⟩
            simp [SymbolTable.bindLabel, contains_eq_isSome, unknown, late]
          · obtain ⟨next, bound⟩ : ∃ next, table.bindLabel name index = .ok next := by
              simp [SymbolTable.bindLabel, contains_eq_isSome, unknown, late]
            obtain ⟨_, _, _, find⟩ := bindLabel_cases bound
            have freshNext : ∀ other ∈ labels (statementsOf rest), next.find? other = none := by
              intro other member
              have different : name ≠ other := by
                rintro rfl
                exact new member
              rw [find other, if_neg different, fresh other member]
            simp only [bound]
            rcases ih index distinct freshNext with bound | ⟨front, back, other, place, split, tooLate, failed⟩
            · exact .inl bound
            · exact .inr ⟨.label name :: front, back, other, place, by rw [split]; rfl, tooLate, failed⟩

theorem Resolved.room (resolved : Resolved statements used table) (linkable : Linkable statements)
    (whole : code statements = used ++ .address (.symbol name) :: rest) (unknown : table.find? name = none) :
    table.nextVariable ≤ maxAddress := by
  rw [resolved.find name, Option.or_eq_none_iff] at unknown
  obtain ⟨free, unused⟩ := unknown
  have absent : name ∉ variableUses statements used := by
    intro member
    simp [member] at unused
  -- The name is one variable more than those that have been counted so far.
  have enough := linkable.cells
  have split : variableUses statements (code statements) =
      (variableUses statements used ++ [name]) ++ variableUses statements rest := by
    rw [whole, variableUses_append, variableUses_symbol free, List.append_assoc, List.singleton_append]
  have more : (variableUses statements used ++ [name]).dedup.length ≤
      (variableUses statements (code statements)).dedup.length := by
    refine (List.subperm_of_subset (List.nodup_dedup _) fun other member => ?_).length_le
    rw [split]
    exact List.mem_dedup.mpr (List.mem_append_left _ (List.mem_dedup.mp member))
  rw [length_dedup_append_singleton, if_neg absent, ← unbound_eq_variableUses] at more
  rw [resolved.next]
  omega

theorem Resolved.exists_encode (resolved : Resolved statements used table) (linkable : Linkable statements)
    (whole : code statements = used ++ body :: rest) : ∃ word after, body.encode table = .ok (word, after) := by
  cases body with
  | compute dest comp jump => exact ⟨_, _, rfl⟩
  | address operand =>
      cases operand with
      | literal value =>
          have within := linkable.loaded value (mem_numbers.mpr (by simp [whole]))
          rw [Instruction.encode, if_neg (Nat.not_lt.mpr within)]
          exact ⟨_, _, rfl⟩
      | symbol name =>
          cases known : table.find? name with
          | some address =>
              rw [Instruction.encode, SymbolTable.resolve_of_find known]
              exact ⟨_, _, rfl⟩
          | none =>
              have room := resolved.room linkable whole known
              simp only [Instruction.encode, SymbolTable.resolve, known, if_neg (Nat.not_lt.mpr room)]
              exact ⟨_, _, rfl⟩

theorem Resolved.exists_encodeAll {lines : List (SourceLine × Instruction)}
    (resolved : Resolved statements used table) (linkable : Linkable statements)
    (whole : code statements = used ++ lines.map Prod.snd) :
    ∃ entries after, (lines.zipIdx index).mapM encodeEntry table = .ok (entries, after) := by
  induction lines generalizing used index table with
  | nil => exact ⟨[], table, rfl⟩
  | cons first rest ih =>
      obtain ⟨line, body⟩ := first
      obtain ⟨word, next, encoded⟩ := resolved.exists_encode linkable whole
      have resolvedNext := (resolved.encode encoded whole).2.2
      obtain ⟨entries, after, more⟩ :
          ∃ entries after, (rest.zipIdx (index + 1)).mapM encodeEntry next = .ok (entries, after) :=
        ih resolvedNext (by simpa using whole)
      have one : encodeEntry ((line, body), index) table = .ok (⟨index, line.number, line.text, word⟩, next) := by
        simp only [encodeEntry, encoded]
        rfl
      rw [List.zipIdx_cons]
      exact ⟨_, after, runM_cons_ok one more⟩

theorem encodeProgram_isOk_iff :
    (∃ entries, encodeProgram program = .ok entries) ↔ Linkable (statementsOf program) := by
  constructor
  · rintro ⟨entries, encoded⟩
    exact (linked_of_encodeProgram encoded).linkable
  · intro linkable
    have fresh : ∀ name ∈ labels (statementsOf program), SymbolTable.initial.find? name = none := by
      intro name member
      rw [find?_initial]
      exact linkable.unreserved name member
    obtain ⟨table, bound⟩ : ∃ table, bindLabels .initial 0 program = .ok table := by
      rcases bindLabels_outcome 0 linkable.distinct fresh with bound | ⟨front, back, name, _, split, late, _⟩
      · exact bound
      · have within := linkable.placed front back name split
        omega
    have whole : code (statementsOf program) = [] ++ (instructions program).map Prod.snd := by
      rw [instructions_map_snd, List.nil_append]
    obtain ⟨entries, after, encodedAll⟩ :
        ∃ entries after, (encodeAll (instructions program)).run table = .ok (entries, after) :=
      (resolved_of_bindLabels bound).exists_encodeAll linkable whole
    refine ⟨entries, ?_⟩
    rw [encodeProgram, bound]
    change (encodeAll (instructions program)).run table >>= _ = _
    rw [encodedAll]
    rfl

theorem exists_parseLines (reads : Reads source.toList statements) :
    ∃ program, parseLines (clean source) = .ok program ∧ statementsOf program = statements := by
  rw [Reads, ← map_text_clean, List.map_map] at reads
  unfold parseLines
  generalize clean source = lines at reads
  induction lines generalizing statements with
  | nil =>
      have none : statements = [] := List.map_eq_nil_iff.mp reads.symm
      subst none
      exact ⟨[], rfl, rfl⟩
  | cons line lines ih =>
      cases statements with
      | nil => contradiction
      | cons statement statements =>
          obtain ⟨one, more⟩ := List.cons.inj reads
          obtain ⟨program, parsed, rfl⟩ := ih more
          have read : readStatement line.text.toList = .ok statement := one
          have parse : line.parse = .ok { line with statement } := by
            rw [SourceLine.parse, read]
            rfl
          exact ⟨_, mapM_cons_ok parse parsed, rfl⟩

/-- Whether a text can be assembled depends on its statements alone. -/
theorem listing_isOk_iff (reads : Reads source.toList statements) :
    (∃ entries, listing source = .ok entries) ↔ Linkable statements := by
  obtain ⟨program, parsed, rfl⟩ := exists_parseLines reads
  rw [← encodeProgram_isOk_iff, listing, parsed]
  rfl

theorem lines_binaryText (entries : List Entry) :
    lines (binaryText entries).toList = entries.map fun entry => (Word.binary entry.word).toList := by
  rw [binaryText, String.toList_intercalate, List.map_map]
  refine lines_intercalate fun part member => ?_
  obtain ⟨entry, _, rfl⟩ := List.mem_map.mp member
  constructor
  · simp only [Function.comp_apply, Word.binary, String.toList_ofList, List.mem_map, not_exists, not_and]
    intro digit _
    split <;> decide
  · refine List.ne_nil_of_length_pos ?_
    rw [Function.comp_apply, String.length_toList, Word.length_binary]
    decide

end Hack.Assembly
