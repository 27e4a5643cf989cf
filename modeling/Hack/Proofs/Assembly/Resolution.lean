import Hack.Proofs.Assembly.Address
import Hack.Proofs.Sequence

namespace Hack.Assembly

open SymbolTable

variable {statements front back : List Statement} {name other : String} {body : Instruction}
variable {table after : SymbolTable} {program : List ParsedLine} {index address : Nat}
variable {used rest : List Instruction} {word : Word}

theorem find?_initial : SymbolTable.initial.find? name = predefined.lookup name := by
  have distinct : predefined.Pairwise fun a b => ¬ compare a.1 b.1 = .eq := by decide
  cases listed : predefined.lookup name with
  | some address =>
      obtain ⟨before, later, split, _⟩ := List.lookup_eq_some_iff.mp listed
      have member : (name, address) ∈ predefined := by simp [split]
      exact Std.TreeMap.getElem?_ofList_of_mem Std.ReflCmp.compare_self distinct member
  | none =>
      refine Std.TreeMap.getElem?_ofList_of_contains_eq_false ?_
      simp only [List.lookup_eq_none_iff, bne_iff_ne] at listed
      simpa using fun address member => listed (name, address) member rfl

theorem contains_eq_isSome : table.contains name = (table.find? name).isSome :=
  Std.TreeMap.contains_eq_isSome_getElem?

theorem find?_insert (addresses : Std.TreeMap String Nat) (allocated : Array String) :
    (SymbolTable.mk (addresses.insert name address) allocated).find? other =
      if name = other then some address else (SymbolTable.mk addresses allocated).find? other := by
  simp [find?, Std.TreeMap.getElem?_insert]

/-- What binding a label says about it, and what it leaves alone. -/
theorem bindLabel_cases (bound : table.bindLabel name index = .ok after) :
    table.find? name = none ∧ index ≤ maxAddress ∧ after.allocated = table.allocated ∧
      ∀ other, after.find? other = if name = other then some index else table.find? other := by
  unfold bindLabel at bound
  split at bound
  · contradiction
  · next fresh =>
      split at bound
      · contradiction
      · next within =>
          cases bound
          refine ⟨?_, Nat.le_of_not_lt within, rfl, fun other => find?_insert _ _⟩
          simpa [contains_eq_isSome] using fresh

theorem bindLabels_cases (bound : bindLabels table index program = .ok after) :
    after.allocated = table.allocated ∧
      ∀ name, after.find? name =
        (table.find? name).or ((labelPosition? name (statementsOf program)).map (index + ·)) := by
  induction program generalizing table index with
  | nil =>
      cases bound
      exact ⟨rfl, fun name => by simp [statementsOf, labelPosition?]⟩
  | cons line rest ih =>
      simp only [bindLabels] at bound
      cases kind : line.statement with
      | instruction body =>
          simp only [kind] at bound
          obtain ⟨allocated, find⟩ := ih bound
          refine ⟨allocated, fun name => ?_⟩
          rw [find name]
          simp only [statementsOf, List.map_cons, kind, labelPosition?, Option.map_map]
          congr 2
          funext before
          simp only [Function.comp_apply]
          omega
      | label declared =>
          simp only [kind] at bound
          split at bound
          · next next boundOne =>
              obtain ⟨fresh, within, same, findOne⟩ := bindLabel_cases boundOne
              obtain ⟨allocated, find⟩ := ih bound
              refine ⟨allocated.trans same, fun name => ?_⟩
              rw [find name, findOne name]
              simp only [statementsOf, List.map_cons, kind, labelPosition?]
              split
              · next is => subst is; simp [fresh]
              · rfl
          · contradiction

theorem bindLabels_fresh (bound : bindLabels table index program = .ok after)
    (split : statementsOf program = front ++ .label name :: back) :
    table.find? name = none ∧ labelPosition? name front = none ∧
      index + (code front).length ≤ maxAddress := by
  induction program generalizing table index front with
  | nil => simp [statementsOf] at split
  | cons line rest ih =>
      simp only [bindLabels] at bound
      simp only [statementsOf, List.map_cons] at split
      cases front with
      | nil =>
          obtain ⟨kind, rfl⟩ := List.cons.inj split
          simp only [kind] at bound
          split at bound
          · next next boundOne =>
              obtain ⟨fresh, within, _⟩ := bindLabel_cases boundOne
              exact ⟨fresh, rfl, within⟩
          · contradiction
      | cons first front =>
          obtain ⟨kind, tail⟩ := List.cons.inj split
          cases first with
          | instruction body =>
              simp only [kind] at bound
              obtain ⟨fresh, absent, within⟩ := ih bound tail
              refine ⟨fresh, by simp [labelPosition?, absent], ?_⟩
              simp only [code_instruction, List.length_cons]
              omega
          | label declared =>
              simp only [kind] at bound
              split at bound
              · next next boundOne =>
                  obtain ⟨_, _, _, findOne⟩ := bindLabel_cases boundOne
                  obtain ⟨fresh, absent, within⟩ := ih bound tail
                  rw [findOne name] at fresh
                  split at fresh
                  · contradiction
                  · next different => exact ⟨fresh, by simp [labelPosition?, different, absent], within⟩
              · contradiction

theorem le_of_lookup_predefined (listed : predefined.lookup name = some address) : address ≤ maxAddress := by
  obtain ⟨before, later, split, _⟩ := List.lookup_eq_some_iff.mp listed
  have all : ∀ entry ∈ predefined, entry.2 ≤ maxAddress := by decide
  exact all (name, address) (by simp [split])

/-- A table that a run can come to hold: labels are bound and names are looked
up, in any order. -/
inductive SymbolTable.Arises : SymbolTable → Prop where
  | initial : Arises .initial
  | bindLabel {table after : SymbolTable} {name : String} {index : Nat} (arises : Arises table)
      (bound : table.bindLabel name index = .ok after) : Arises after
  | resolve {table after : SymbolTable} {name : String} {address : Nat} (arises : Arises table)
      (resolved : table.resolve name = .ok (address, after)) : Arises after

/-- No name ever gets an address that does not fit into an instruction. -/
theorem SymbolTable.Arises.le_maxAddress (arises : table.Arises) (known : table.find? name = some address) :
    address ≤ maxAddress := by
  induction arises generalizing name address with
  | initial =>
      rw [find?_initial] at known
      exact le_of_lookup_predefined known
  | bindLabel arises bound ih =>
      obtain ⟨_, within, _, find⟩ := bindLabel_cases bound
      rw [find name] at known
      split at known
      · cases known
        exact within
      · exact ih known
  | @resolve table after used cell arises resolved ih =>
      unfold SymbolTable.resolve at resolved
      split at resolved
      · cases resolved
        exact ih known
      · split at resolved
        · contradiction
        · next room =>
            cases resolved
            rw [find?_insert] at known
            split at known
            · cases known
              exact Nat.le_of_not_lt room
            · exact ih known

/-- The table after the instructions `used` of a program have been encoded. -/
structure Resolved (statements : List Statement) (used : List Instruction) (table : SymbolTable) : Prop where
  find : ∀ name, table.find? name = (fixedAddress? statements name).or
    (if name ∈ variableUses statements used then
      some (variableCell (variableUses statements used) name) else none)
  next : table.nextVariable = firstVariable + (variableUses statements used).dedup.length
  bounded : ∀ name address, table.find? name = some address → address ≤ maxAddress

theorem resolved_of_bindLabels (bound : bindLabels .initial 0 program = .ok table) :
    Resolved (statementsOf program) [] table := by
  obtain ⟨allocated, find⟩ := bindLabels_cases bound
  have fixed : ∀ name, table.find? name = fixedAddress? (statementsOf program) name := by
    intro name
    simp [find name, find?_initial, fixedAddress?]
  refine ⟨fun name => by simp [fixed name, variableUses], ?_, fun name address found => ?_⟩
  · simp [nextVariable, allocated, SymbolTable.initial, variableUses]
  · rw [fixed name, fixedAddress?, Option.or_eq_some_iff] at found
    rcases found with listed | ⟨_, declared⟩
    · exact le_of_lookup_predefined listed
    · obtain ⟨front, back, split, _, rfl⟩ := exists_of_labelPosition? declared
      have within := (bindLabels_fresh bound split).2.2
      omega

theorem Resolved.keep (resolved : Resolved statements used table)
    (same : variableUses statements (used ++ [body]) = variableUses statements used) :
    Resolved statements (used ++ [body]) table :=
  ⟨by rw [same]; exact resolved.find, by rw [same]; exact resolved.next, resolved.bounded⟩

theorem Resolved.found (resolved : Resolved statements used table)
    (known : table.find? name = some address)
    (whole : code statements = used ++ .address (.symbol name) :: rest) :
    address = addressOf statements name ∧ Resolved statements (used ++ [.address (.symbol name)]) table := by
  rw [resolved.find name] at known
  cases fixed : fixedAddress? statements name with
  | some declared =>
      rw [fixed, Option.some_or] at known
      cases known
      refine ⟨by simp [addressOf, fixed], resolved.keep ?_⟩
      rw [variableUses_append, variableUses_symbol_fixed fixed]
      simp [variableUses]
  | none =>
      rw [fixed, Option.none_or] at known
      split at known
      · next member =>
          cases known
          have appended : variableUses statements (used ++ [.address (.symbol name)]) =
              variableUses statements used ++ [name] := by
            rw [variableUses_append, variableUses_symbol fixed]
            simp [variableUses]
          refine ⟨?_, ⟨fun other => ?_, ?_, resolved.bounded⟩⟩
          · rw [addressOf, fixed, Option.getD_none, whole, variableUses_append, variableCell_append member]
          · rw [resolved.find other, appended]
            by_cases otherMember : other ∈ variableUses statements used
            · simp [otherMember, variableCell_append otherMember]
            · have different : other ≠ name := fun same => otherMember (same ▸ member)
              simp [otherMember, different]
          · rw [resolved.next, appended, length_dedup_append_singleton, if_pos member]
      · contradiction

theorem Resolved.allocate (resolved : Resolved statements used table)
    (unknown : table.find? name = none) (room : table.nextVariable ≤ maxAddress)
    (whole : code statements = used ++ .address (.symbol name) :: rest) :
    table.nextVariable = addressOf statements name ∧
      Resolved statements (used ++ [.address (.symbol name)])
        { addresses := table.addresses.insert name table.nextVariable
          allocated := table.allocated.push name } := by
  have fresh := unknown
  rw [resolved.find name, Option.or_eq_none_iff] at fresh
  obtain ⟨free, unused⟩ := fresh
  have absent : name ∉ variableUses statements used := by
    intro member
    simp [member] at unused
  have appended : variableUses statements (used ++ [.address (.symbol name)]) =
      variableUses statements used ++ [name] := by
    rw [variableUses_append, variableUses_symbol free]
    simp [variableUses]
  have cell := variableCell_append_new absent []
  refine ⟨?_, ⟨fun other => ?_, ?_, fun other address found => ?_⟩⟩
  · rw [addressOf, free, Option.getD_none, whole, variableUses_append, variableUses_symbol free,
      variableCell_append_new absent _, resolved.next]
  · rw [find?_insert, appended]
    split
    · next same =>
        subst same
        simp [free, cell, resolved.next]
    · next different =>
        change table.find? other = _
        rw [resolved.find other]
        by_cases member : other ∈ variableUses statements used
        · simp [member, variableCell_append member]
        · simp [member, Ne.symm different]
  · rw [appended, length_dedup_append_singleton, if_neg absent]
    have next := resolved.next
    simp only [nextVariable] at next ⊢
    rw [Array.size_push]
    omega
  · rw [find?_insert] at found
    split at found
    · cases found
      exact room
    · exact resolved.bounded other address found

theorem Resolved.encode (resolved : Resolved statements used table)
    (encoded : body.encode table = .ok (word, after))
    (whole : code statements = used ++ body :: rest) :
    word = body.word statements ∧ body.Fits statements ∧ Resolved statements (used ++ [body]) after := by
  cases body with
  | compute dest comp jump =>
      cases encoded
      refine ⟨?_, trivial, resolved.keep ?_⟩
      · rw [Instruction.word, Instruction.value, ← toNat_computeWord, BitVec.ofNat_toNat, BitVec.setWidth_eq]
      · rw [variableUses_append, variableUses_of_name?_none rfl]
        simp [variableUses]
  | address operand =>
      cases operand with
      | literal value =>
          simp only [Instruction.encode] at encoded
          split at encoded
          · contradiction
          · next within =>
              cases encoded
              refine ⟨rfl, Nat.le_of_not_lt within, resolved.keep ?_⟩
              rw [variableUses_append, variableUses_of_name?_none rfl]
              simp [variableUses]
      | symbol name =>
          cases known : table.find? name with
          | some address =>
              simp only [Instruction.encode, resolve_of_find known] at encoded
              cases encoded
              obtain ⟨same, next⟩ := resolved.found known whole
              subst same
              exact ⟨rfl, resolved.bounded name _ known, next⟩
          | none =>
              simp only [Instruction.encode, resolve, known] at encoded
              split at encoded
              · contradiction
              · next room =>
                  cases encoded
                  obtain ⟨same, next⟩ := resolved.allocate known (Nat.le_of_not_lt room) whole
                  have within : addressOf statements name ≤ maxAddress := by omega
                  exact ⟨by rw [same]; rfl, within, next⟩

def declaredEntry (statements : List Statement) : (SourceLine × Instruction) × Nat → Entry
  | ((line, body), index) => ⟨index, line.number, line.text, body.word statements⟩

theorem Resolved.encodeAll {lines : List (SourceLine × Instruction)} {entries : List Entry}
    (resolved : Resolved statements used table)
    (encoded : (lines.zipIdx index).mapM encodeEntry table = .ok (entries, after))
    (whole : code statements = used ++ lines.map Prod.snd) :
    entries = (lines.zipIdx index).map (declaredEntry statements) ∧
      ∀ line ∈ lines, line.2.Fits statements := by
  induction lines generalizing used index table entries with
  | nil =>
      cases encoded
      exact ⟨rfl, by simp⟩
  | cons first rest ih =>
      obtain ⟨line, body⟩ := first
      rw [List.zipIdx_cons] at encoded
      obtain ⟨entry, middle, others, one, more, rfl⟩ := steps_of_runM encoded
      obtain ⟨⟨word, next⟩, encodedOne, finished⟩ := steps_of_bind one
      cases finished
      have encodedBody := steps_of_blame encodedOne
      obtain ⟨rfl, fits, resolvedNext⟩ := resolved.encode encodedBody whole
      obtain ⟨rfl, allFit⟩ := ih resolvedNext more (by simpa using whole)
      exact ⟨rfl, List.forall_mem_cons.mpr ⟨fits, allFit⟩⟩

/-- A program that has been assembled: every entry holds the declared word. -/
theorem encodeProgram_cases {entries : List Entry} (encoded : encodeProgram program = .ok entries) :
    ∃ table, bindLabels .initial 0 program = .ok table ∧
      entries = (instructions program).zipIdx.map (declaredEntry (statementsOf program)) ∧
      ∀ line ∈ instructions program, line.2.Fits (statementsOf program) := by
  obtain ⟨table, bound, encoded⟩ := steps_of_bind encoded
  obtain ⟨⟨found, after⟩, encodedAll, finished⟩ := steps_of_bind encoded
  cases finished
  have whole : code (statementsOf program) = [] ++ (instructions program).map Prod.snd := by
    rw [instructions_map_snd, List.nil_append]
  exact ⟨table, bound, (resolved_of_bindLabels bound).encodeAll encodedAll whole⟩

end Hack.Assembly
