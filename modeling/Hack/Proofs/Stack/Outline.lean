import Mathlib.Data.List.Pairwise
import Hack.Proofs.Assembly.Linking
import Hack.Proofs.Stack.Building

namespace Hack.Stack

open Hack.Assembly Hack.Text

variable {α : Type} {config : Config} {commands front : List Command} {command : Command}
variable {index : Nat} {file : String} {operation : Operation}
variable {part : Emission → String → Operation → List α} {item : α}

/-- What one command contributes at its place. -/
def contribution (config : Config) (commands : List Command) (part : Emission → String → Operation → List α)
    (index : Nat) : List α :=
  match (operationsOf commands)[index]? with
  | some (some (file, operation)) => part (draft config (commands.take index)).emission file operation
  | _ => []

def contributions (config : Config) (commands : List Command) (part : Emission → String → Operation → List α) :
    List α :=
  (List.range commands.length).flatMap (contribution config commands part)

theorem contribution_of_means (means : Means commands index file operation) :
    contribution config commands part index = part (draft config (commands.take index)).emission file operation := by
  rw [contribution, means_iff.mp means]

theorem contribution_cases (config : Config) (commands : List Command)
    (part : Emission → String → Operation → List α) (index : Nat) :
    contribution config commands part index = [] ∨ ∃ file operation, Means commands index file operation ∧
      contribution config commands part index =
        part (draft config (commands.take index)).emission file operation := by
  unfold contribution
  split
  · next file operation found => exact .inr ⟨file, operation, means_iff.mpr found, rfl⟩
  · exact .inl rfl

theorem means_of_mem_contribution (member : item ∈ contribution config commands part index) :
    ∃ file operation, Means commands index file operation ∧
      item ∈ part (draft config (commands.take index)).emission file operation := by
  rcases contribution_cases config commands part index with none | ⟨file, operation, means, own⟩
  · rw [none] at member
    contradiction
  · rw [own] at member
    exact ⟨file, operation, means, member⟩

theorem lt_length_of_means (means : Means commands index file operation) : index < commands.length := by
  obtain ⟨command, found, _⟩ := means
  exact (List.getElem?_eq_some_iff.mp found).1

theorem mem_contributions : item ∈ contributions config commands part ↔
    ∃ index file operation, Means commands index file operation ∧
      item ∈ part (draft config (commands.take index)).emission file operation := by
  constructor
  · intro member
    obtain ⟨index, _, inside⟩ := List.mem_flatMap.mp member
    exact ⟨index, means_of_mem_contribution inside⟩
  · rintro ⟨index, file, operation, means, inside⟩
    refine List.mem_flatMap.mpr ⟨index, List.mem_range.mpr (lt_length_of_means means), ?_⟩
    rw [contribution_of_means means]
    exact inside

theorem mem_range_of_contribution (member : item ∈ contribution config commands part index) :
    index ∈ List.range commands.length := by
  obtain ⟨_, _, means, _⟩ := means_of_mem_contribution member
  exact List.mem_range.mpr (lt_length_of_means means)

theorem nodup_contributions_iff : (contributions config commands part).Nodup ↔
    (∀ index, (contribution config commands part index).Nodup) ∧
      ∀ index other item, item ∈ contribution config commands part index →
        item ∈ contribution config commands part other → index = other := by
  rw [contributions, List.nodup_flatMap]
  constructor
  · rintro ⟨each, apart⟩
    have symmetric : Std.Symm (Function.onFun List.Disjoint (contribution config commands part)) :=
      ⟨fun _ _ disjoint => disjoint.symm⟩
    refine ⟨fun index => ?_, fun index other item one another => by_contra fun different => ?_⟩
    · by_cases within : index ∈ List.range commands.length
      · exact each index within
      · have none : contribution config commands part index = [] :=
          List.eq_nil_iff_forall_not_mem.mpr fun item member => within (mem_range_of_contribution member)
        rw [none]
        exact .nil
    · exact apart.forall (mem_range_of_contribution one) (mem_range_of_contribution another) different one another
  · rintro ⟨each, unique⟩
    refine ⟨fun index _ => each index, List.nodup_range.pairwise_of_forall_ne fun index _ other _ different => ?_⟩
    exact fun item one another => different (unique index other item one another)

theorem contributions_concat : contributions config (front ++ [command]) part =
    contributions config front part ++ contribution config (front ++ [command]) part front.length := by
  have earlier : ∀ index ∈ List.range front.length,
      contribution config (front ++ [command]) part index = contribution config front part index := by
    intro index member
    have within := List.mem_range.mp member
    rw [contribution, contribution, operationsOf, operationsOf, List.map_append,
      List.getElem?_append_left (by simpa using within), List.take_append_of_le_length (Nat.le_of_lt within)]
  rw [contributions, contributions, List.length_append, List.length_singleton, List.range_succ,
    List.flatMap_append, List.flatMap_singleton, List.flatMap_congr earlier]

theorem filterMap_contributions {β : Type} (f : α → Option β) : (contributions config commands part).filterMap f =
    contributions config commands fun emission file operation => (part emission file operation).filterMap f := by
  rw [contributions, contributions, List.filterMap_flatMap]
  refine List.flatMap_congr fun index _ => ?_
  unfold contribution
  split <;> rfl

/-- All statements of a translation, with the names of the program in them as they are. -/
def outline (config : Config) (commands : List Command) : List Statement :=
  openingCode config ++ contributions config commands Operation.code

theorem mem_outline {statement : Statement} : statement ∈ outline config commands ↔
    statement ∈ openingCode config ∨ ∃ index file operation, Means commands index file operation ∧
      statement ∈ operation.code (draft config (commands.take index)).emission file := by
  rw [outline, List.mem_append, mem_contributions]

theorem outline_concat : outline config (front ++ [command]) = outline config front ++
    contribution config (front ++ [command]) Operation.code front.length := by
  rw [outline, contributions_concat, ← List.append_assoc]
  rfl

theorem means_last (read : command.operation = .ok operation) :
    Means (front ++ [command]) front.length command.file operation :=
  ⟨command, List.getElem?_concat_length, read, rfl⟩

theorem cleanedLines_draft (config : Config) (oneLine : ∀ command ∈ commands, '\n' ∉ command.file.toList)
    (clear : ∀ command ∈ commands, command.Clear) :
    cleanedLines (draft config commands).text.toList =
      (outline config commands).map fun statement => cleanLine statement.text.toList := by
  induction commands using List.reverseRecOn with
  | nil =>
      rw [draft_nil, cleanedLines_of_clear (clear_openingCode config), outline]
      simp [contributions]
  | append_singleton front command ih =>
      obtain ⟨oneLines, last⟩ := List.forall_mem_append.mp oneLine
      obtain ⟨clears, lastClear⟩ := List.forall_mem_append.mp clear
      have commandClear := lastClear command List.mem_cons_self
      rw [draft_concat, outline_concat, List.map_append, ← ih oneLines clears]
      cases read : command.operation with
      | error fault =>
          have nothing : (operationsOf (front ++ [command]))[front.length]? = some none := by
            simp [operationsOf, read, Except.toOption]
          rw [extend_of_error read, contribution, nothing, List.map_nil, List.append_nil]
      | ok operation =>
          have names : ∀ name, operation.name? = some name → '\n' ∉ name.toList := by
            intro name named member
            have visible := commandClear.name name (name_of_operation read named) _ member
            contradiction
          have enclosed := (counted_draft config oneLines clears).enclosing
          have oneLines := clear_code (draft config front).emission operation (last command List.mem_cons_self)
            names enclosed
          -- What a command adds begins where a line begins, so it is cleaned by itself.
          rw [extend_of_operation read, contribution_of_means (means_last read), List.take_left,
            String.toList_append, String.toList_append, cleanedLines_append (endsLine_draft config front),
            cleanedLines_append (endsLine_comment config.annotate command),
            cleanedLines_comment config.annotate commandClear, List.nil_append, cleanedLines_of_clear oneLines]

/-- Cleaning leaves labels as they are, and makes no instruction a label. -/
theorem labelLines_cleaned {statements : List Statement}
    (legal : ∀ name ∈ labels statements, isSymbol name.toList = true) :
    (statements.map fun statement => cleanLine statement.text.toList).filter opensLabel =
      (labels statements).map fun name => (Statement.label name).text.toList := by
  induction statements with
  | nil => rfl
  | cons statement rest ih =>
      cases statement with
      | label name =>
          obtain ⟨own, others⟩ := List.forall_mem_cons.mp legal
          have plain : ∀ c ∈ (Statement.label name).text.toList, isPlain c = true := isPlain_text (show _ from own)
          have opens : opensLabel (Statement.label name).text.toList = true := by simp [Statement.text, opensLabel]
          rw [List.map_cons, cleanLine_of_isPlain plain, List.filter_cons_of_pos opens, ih others, labels_label,
            List.map_cons]
      | instruction body =>
          obtain ⟨first, more, text, plain, noLabel⟩ := exists_opening (.instruction body)
          have stays : first ≠ '(' := by simpa [Statement.instruction?] using noLabel
          rw [List.map_cons, text, cleanLine_cons plain, List.filter_cons_of_neg (by simp [opensLabel, stays]),
            ih legal, labels_instruction]

/-- The name that a command defines or refers to. -/
def Command.mentions? (command : Command) : Option String :=
  match command.operation with
  | .ok operation => operation.name?
  | .error _ => none

theorem mem_mentioned {name : String} (means : Means commands index file operation)
    (named : operation.name? = some name) : name ∈ commands.filterMap Command.mentions? := by
  obtain ⟨command, found, read, _⟩ := means
  refine List.mem_filterMap.mpr ⟨command, List.mem_of_getElem? found, ?_⟩
  rw [Command.mentions?, read]
  exact named

theorem enclosing_mentioned {function : String} (config : Config) (commands : List Command) (index : Nat)
    (inside : (draft config (commands.take index)).emission.enclosing = some function) :
    function ∈ commands.filterMap Command.mentions? := by
  rw [enclosing_draft] at inside
  obtain ⟨_, _, _, means⟩ := exists_begins inside
  exact mem_mentioned means rfl

theorem legal_outline (config : Config) (inFiles : ∀ command ∈ commands, isSymbol command.file.toList = true)
    (inNames : ∀ name ∈ commands.filterMap Command.mentions?, isSymbol name.toList = true) :
    ∀ statement ∈ outline config commands, statement.Legal := by
  intro statement member
  rcases mem_outline.mp member with opening | ⟨index, file, operation, means, inCode⟩
  · exact Built.legal_openingCode config statement opening
  · have inFile : isSymbol file.toList = true := by
      obtain ⟨command, found, _, rfl⟩ := means
      exact inFiles command (List.mem_of_getElem? found)
    exact legal_code _ operation inFile (fun name named => inNames name (mem_mentioned means named))
      (fun function inside => inNames function (enclosing_mentioned config commands index inside)) statement inCode

/-- A translation of legal names is read as its outline, but for numbers that are
too high anyway. -/
theorem reads_outline (config : Config) (clear : ∀ command ∈ commands, command.Clear)
    (inFiles : ∀ command ∈ commands, isSymbol command.file.toList = true)
    (inNames : ∀ name ∈ commands.filterMap Command.mentions?, isSymbol name.toList = true) :
    Reads (draft config commands).text.toList ((outline config commands).map Statement.bounded) := by
  have oneLine : ∀ command ∈ commands, '\n' ∉ command.file.toList :=
    fun command member => lineFeed_not_mem_symbol (inFiles command member)
  rw [Reads, cleanedLines_draft config oneLine clear, List.map_map, List.map_map]
  refine List.map_congr_left fun statement member => ?_
  have legal := legal_outline config inFiles inNames statement member
  rw [Function.comp_apply, Function.comp_apply, cleanLine_of_isPlain (isPlain_text legal),
    readStatement_of_written (written_text legal)]

def Operation.declares (emission : Emission) (file : String) : Operation → List String
  | .label name => [emission.qualify name]
  | .function name _ => [name]
  | .call _ _ => [emission.returnLabel file]
  | _ => []

theorem nodup_declares (emission : Emission) (file : String) (operation : Operation) :
    (operation.declares emission file).Nodup := by
  cases operation <;> simp [Operation.declares]

/-- The numbers that the code of an operation loads. -/
def Operation.loads (emission : Emission) : Operation → List Nat
  | .pushConstant value => [value]
  | .push (.indirect _ index) | .pop (.indirect _ index) => [index]
  | .push (.fixed address) | .pop (.fixed address) => [address]
  | .arithmetic op =>
      if op.jump?.isSome then
        [emission.emitted + comparisonTrueOffset, emission.emitted + comparisonFalseOffset]
      else []
  | .call _ arguments => [arguments + 5]
  | .ret => [5]
  | _ => []

theorem filterMap_locals {β : Type} {f : Statement → Option β} (none : (pushComp .zero).filterMap f = [])
    (locals : Nat) : (List.replicate locals (pushComp .zero)).flatten.filterMap f = [] := by
  refine List.filterMap_eq_nil_iff.mpr fun statement member => ?_
  obtain ⟨block, replicated, inside⟩ := List.mem_flatten.mp member
  rw [List.eq_of_mem_replicate replicated] at inside
  exact List.filterMap_eq_nil_iff.mp none statement inside

theorem labels_code (emission : Emission) (file : String) (operation : Operation) :
    labels (operation.code emission file) = operation.declares emission file := by
  cases operation with
  | push cell | pop cell => cases cell <;> rfl
  | arithmetic op => cases op <;> rfl
  | function name locals => exact congrArg (name :: ·) (filterMap_locals rfl locals)
  | pushConstant value | label name | goto name | ifGoto name | call name arguments | ret => rfl

theorem numbers_code (emission : Emission) (file : String) (operation : Operation) :
    numbers (operation.code emission file) = operation.loads emission := by
  cases operation with
  | push cell | pop cell => cases cell <;> rfl
  | arithmetic op => cases op <;> rfl
  | function name locals => exact filterMap_locals rfl locals
  | pushConstant value | label name | goto name | ifGoto name | call name arguments | ret => rfl

/-- The labels of a translation: function names, labels inside functions, and
return labels. -/
def declarations (config : Config) (commands : List Command) : List String :=
  (if config.bootstrap then [Emission.returnLabel {} "Bootstrap"] else []) ++
    contributions config commands Operation.declares

theorem labels_outline : labels (outline config commands) = declarations config commands := by
  have opening : labels (openingCode config) =
      if config.bootstrap then [Emission.returnLabel {} "Bootstrap"] else [] := by
    unfold openingCode
    split <;> rfl
  have own : (fun emission file (operation : Operation) =>
      (operation.code emission file).filterMap Statement.declares?) = Operation.declares := by
    funext emission file operation
    exact labels_code emission file operation
  rw [outline, labels_append, opening, labels, filterMap_contributions, own, declarations]

theorem numbers_outline : numbers (outline config commands) = (if config.bootstrap then [stackBase, 5] else []) ++
    contributions config commands fun emission _ operation => operation.loads emission := by
  have opening : numbers (openingCode config) = if config.bootstrap then [stackBase, 5] else [] := by
    unfold openingCode
    split <;> rfl
  have own : (fun emission file (operation : Operation) =>
      (operation.code emission file).filterMap Statement.number?) = fun emission _ operation =>
        operation.loads emission := by
    funext emission file operation
    exact numbers_code emission file operation
  rw [outline, numbers, List.filterMap_append, ← numbers, opening, filterMap_contributions, own]

end Hack.Stack
