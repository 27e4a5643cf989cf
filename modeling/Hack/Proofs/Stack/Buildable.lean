import Hack.Proofs.Stack.Outline

namespace Hack.Stack

open Hack.Assembly Hack.Text

variable {config : Config} {files : List SourceFile} {commands : List Command} {command : Command}
variable {statements : List Statement} {operation : Operation} {text : String} {after : Emission}

/-- The numbers in the code of an operation fit into instructions. -/
def Operation.WithinLimits (emission : Emission) : Operation → Prop
  | .arithmetic .eq | .arithmetic .gt | .arithmetic .lt => emission.emitted ≤ 32753
  | .push (.indirect _ index) | .pop (.indirect _ index) => index ≤ 32767
  | .call _ arguments => arguments ≤ 32762
  | _ => True

/-- What the assembler demands of the translation of these commands, which reads
as these statements. -/
structure Buildable (config : Config) (commands : List Command) (statements : List Statement) : Prop where
  distinct : (labels statements).Nodup
  unreserved : ∀ name ∈ labels statements, predefined.lookup name = none
  placed : ∀ front back name, statements = front ++ .label name :: back → (code front).length ≤ 32767
  limits : ∀ index file operation, Means commands index file operation →
    operation.WithinLimits (draft config (commands.take index)).emission
  cells : (unbound statements).dedup.length ≤ 32752

theorem labels_bounded : labels (statements.map Statement.bounded) = labels statements := by
  rw [labels, List.filterMap_map, labels]
  refine List.filterMap_congr fun statement _ => ?_
  rcases statement with name | (_ | name) | compute <;> rfl

theorem numbers_bounded :
    numbers (statements.map Statement.bounded) = (numbers statements).map (min · maxLiteral) := by
  rw [numbers, List.filterMap_map, numbers, List.map_filterMap]
  refine List.filterMap_congr fun statement _ => ?_
  rcases statement with name | (_ | name) | compute <;> rfl

theorem loads_le_iff (emission : Emission) (understood : Understood command operation) :
    (∀ value ∈ operation.loads emission, value ≤ maxAddress) ↔ operation.WithinLimits emission := by
  have fixed : ∀ {segment : Segment} {index address : Nat}, segment.cell index = .ok (.fixed address) →
      address ≤ maxAddress := fun found => Nat.le_trans (fixed_of_segment found).2 (by decide)
  cases understood with
  | pushConstant value within => simpa [Operation.loads, Operation.WithinLimits] using within
  | @push segment index cell found | @pop segment index cell found =>
      cases cell with
      | indirect base index => simp [Operation.loads, Operation.WithinLimits, maxAddress]
      | static index => simp [Operation.loads, Operation.WithinLimits]
      | fixed address => simpa [Operation.loads, Operation.WithinLimits] using fixed found
  | arithmetic op =>
      cases op <;>
        simp [Operation.loads, Operation.WithinLimits, ArithmeticOp.jump?, comparisonTrueOffset,
          comparisonFalseOffset, maxAddress]
      all_goals omega
  | call given arguments => simp [Operation.loads, Operation.WithinLimits, maxAddress]
  | label given | goto given | ifGoto given | function given locals =>
      simp [Operation.loads, Operation.WithinLimits]
  | ret => simp [Operation.loads, Operation.WithinLimits, maxAddress]

theorem numbers_le_iff (config : Config) (commands : List Command) :
    (∀ value ∈ numbers ((outline config commands).map Statement.bounded), value ≤ maxAddress) ↔
    ∀ index file operation, Means commands index file operation →
      operation.WithinLimits (draft config (commands.take index)).emission := by
  have bounded : ∀ value, min value maxLiteral ≤ maxAddress ↔ value ≤ maxAddress := by
    simp only [maxLiteral, maxAddress]
    omega
  have opening : ∀ value ∈ if config.bootstrap then [stackBase, 5] else [], value ≤ maxAddress := by
    split <;> decide
  rw [numbers_bounded, List.forall_mem_map, numbers_outline]
  simp only [bounded, List.forall_mem_append, iff_true_intro opening, true_and, mem_contributions]
  constructor
  · rintro all index file operation ⟨command, found, read, rfl⟩
    exact (loads_le_iff _ (understood_of_operation read)).mp fun value member =>
      all value ⟨index, _, operation, ⟨command, found, read, rfl⟩, member⟩
  · rintro all value ⟨index, file, operation, ⟨command, found, read, rfl⟩, member⟩
    have limits := all index _ operation ⟨command, found, read, rfl⟩
    exact (loads_le_iff _ (understood_of_operation read)).mpr limits value member

theorem linkable_iff_buildable (outlined : statements = (outline config commands).map Statement.bounded) :
    Linkable statements ↔ Buildable config commands statements := by
  have limits := numbers_le_iff config commands
  rw [← outlined] at limits
  constructor
  · rintro ⟨distinct, unreserved, placed, loaded, cells⟩
    refine ⟨distinct, unreserved, placed, limits.mp loaded, ?_⟩
    simp only [firstVariable, maxAddress] at cells
    omega
  · rintro ⟨distinct, unreserved, placed, within, cells⟩
    refine ⟨distinct, unreserved, placed, limits.mpr within, ?_⟩
    simp only [firstVariable, maxAddress]
    omega

theorem build_eq (read : readFiles files = .ok commands)
    (translated : translateCommands config commands = .ok (text, after)) :
    build files config = assemble text := by
  rw [build, translate, read]
  change ((translateCommands config commands >>= fun result => .ok result.1) >>= _) = _
  rw [translated]
  rfl

/-- A translation whose names are symbols is assembled exactly when its labels
are new and everything fits, and the binary has a line for every instruction
that the translation has counted. -/
theorem build_isOk_iff (read : readFiles files = .ok commands)
    (translated : translateCommands config commands = .ok (text, after))
    (inFiles : ∀ file ∈ files, isSymbol file.name.toList = true)
    (inNames : ∀ name ∈ commands.filterMap Command.mentions?, isSymbol name.toList = true) :
    ∃ statements, Reads text.toList statements ∧ labels statements = declarations config commands ∧
      ((∃ binary, build files config = .ok binary) ↔ Buildable config commands statements) ∧
      ∀ binary, build files config = .ok binary → (lines binary.toList).length = after.emitted := by
  have clear := clear_of_readFiles read
  have inCommands : ∀ command ∈ commands, isSymbol command.file.toList = true := by
    intro command member
    obtain ⟨⟨file, inside, same⟩, _⟩ := clear command member
    rw [same]
    exact inFiles file inside
  have oneLine : ∀ command ∈ commands, '\n' ∉ command.file.toList :=
    fun command member => lineFeed_not_mem_symbol (inCommands command member)
  have reads := reads_outline config (fun command member => (clear command member).2) inCommands inNames
  obtain ⟨drafted, _⟩ := draft_of_translateCommands translated
  rw [drafted] at reads
  refine ⟨_, reads, labels_bounded.trans labels_outline, ?_, ?_⟩
  · rw [← linkable_iff_buildable rfl, ← listing_isOk_iff reads, build_eq read translated]
    constructor
    · rintro ⟨binary, assembled⟩
      obtain ⟨entries, listed, _⟩ := steps_of_map assembled
      exact ⟨entries, listed⟩
    · rintro ⟨entries, listed⟩
      exact ⟨binaryText entries, by rw [assemble, listed]; rfl⟩
  · intro binary built
    rw [build_eq read translated] at built
    obtain ⟨entries, listed, rfl⟩ := steps_of_map built
    have counted := (counted_draft config oneLine fun command member => (clear command member).2).emitted
    rw [drafted] at counted
    rw [lines_binaryText, List.length_map, length_of_listing listed]
    exact counted.symm

/-- A program that compares over and over. -/
def comparing : List SourceFile :=
  [⟨"Main", "label L\nlt\ngoto L"⟩]

theorem build_isOk_iff_comparing : ∃ commands text after statements binary,
    readFiles comparing = .ok commands ∧ translateCommands ⟨false, false⟩ commands = .ok (text, after) ∧
      Reads text.toList statements ∧ labels statements = declarations ⟨false, false⟩ commands ∧
      build comparing ⟨false, false⟩ = .ok binary ∧ Buildable ⟨false, false⟩ commands statements ∧
      (lines binary.toList).length = after.emitted := by
  have succeeds : (build comparing ⟨false, false⟩).toOption.isSome = true := by decide +kernel
  obtain ⟨binary, built⟩ := exists_ok_of_isSome succeeds
  obtain ⟨whole, _⟩ := exists_built built
  obtain ⟨commands, after, read, translated⟩ := commands_of_translate whole.translated
  have names : (readFiles comparing).toOption.map (List.filterMap Command.mentions?) = some ["L", "L"] := by
    decide +kernel
  rw [read] at names
  have inNames : ∀ name ∈ commands.filterMap Command.mentions?, isSymbol name.toList = true := by
    rw [Option.some.inj names]
    decide
  obtain ⟨statements, reads, declared, buildable, counted⟩ :=
    build_isOk_iff read translated (by decide) inNames
  exact ⟨commands, whole.text, after, statements, binary, read, translated, reads, declared, built,
    buildable.mp ⟨binary, built⟩, counted binary built⟩

end Hack.Stack
