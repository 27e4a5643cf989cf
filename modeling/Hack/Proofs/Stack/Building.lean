import Hack.Proofs.Machine.Execution
import Hack.Proofs.Stack.Layout
import Hack.Proofs.Stack.Semantics

namespace Hack.Stack

open Hack.Assembly Hack.Text

/-- Everything that comes up when a program is built. -/
structure Built (files : List SourceFile) (config : Config) where
  commands : List Command
  text : String
  entries : List Entry
  read : readFiles files = .ok commands
  translated : translate files config = .ok text
  assembled : listing text = .ok entries

def statementsIn (text : String) : List Statement :=
  match parseLines (clean text) with
  | .ok program => statementsOf program
  | .error _ => []

variable {files : List SourceFile} {config : Config} {binary : String}

theorem exists_built (succeeded : build files config = .ok binary) :
    ∃ built : Built files config, binary = binaryText built.entries := by
  obtain ⟨text, translated, assembled⟩ := steps_of_bind succeeded
  obtain ⟨entries, listed, rfl⟩ := steps_of_map assembled
  obtain ⟨commands, read, _⟩ := steps_of_bind translated
  exact ⟨⟨commands, text, entries, read, translated, listed⟩, rfl⟩

namespace Built

variable (built : Built files config)

theorem build_eq : build files config = .ok (binaryText built.entries) := by
  rw [build, built.translated]
  change assemble built.text = _
  rw [assemble, built.assembled]
  rfl

def statements : List Statement :=
  statementsIn built.text

def program : Array Word :=
  (built.entries.map Entry.word).toArray

/-- The number of the first instruction of a command, or of the end. -/
def start (index : Nat) : Nat :=
  position config (built.commands.take index)

def placement : Placement where
  start := built.start
  static file index := wordOf built.statements (staticSymbol file index)

/-- What the translation leaves to the writer of the program: names are symbols,
jumps and calls have targets, and no label takes the name of a variable. -/
structure Closed : Prop where
  files : ∀ file ∈ files, isSymbol file.name.toList = true
  names : ∀ index file operation, Means built.commands index file operation →
    ∀ name, operation.name? = some name → isSymbol name.toList = true
  targets : ∀ index file name, Means built.commands index file (.goto name) ∨
    Means built.commands index file (.ifGoto name) → ∃ target, Labels built.commands index name target
  callees : ∀ index file name arguments, Means built.commands index file (.call name arguments) →
    ∃ target, Begins built.commands name target
  init : config.bootstrap = true → ∃ target, Begins built.commands "Sys.init" target
  statics : ∀ index file number, Means built.commands index file (.push (.static number)) ∨
    Means built.commands index file (.pop (.static number)) →
      .label (staticSymbol file number) ∉ built.statements

variable {built}

theorem reads : Reads built.text.toList built.statements := by
  obtain ⟨program, parsed, _⟩ := program_of_listing built.assembled
  rw [statements, statementsIn, parsed]
  exact reads_of_parseLines parsed

theorem linked : Linked built.statements built.program.toList := by
  obtain ⟨program, parsed, encoded⟩ := program_of_listing built.assembled
  rw [statements, statementsIn, parsed, Built.program]
  exact linked_of_encodeProgram encoded

theorem text_eq : (draft config built.commands).text = built.text := by
  obtain ⟨commands, read, same, _⟩ := draft_of_translate built.translated
  have unique : commands = built.commands := Except.ok.inj (read.symm.trans built.read)
  rw [← unique, same]

theorem exists_operation : ∀ command ∈ built.commands, ∃ operation, command.operation = .ok operation := by
  obtain ⟨commands, read, _, all⟩ := draft_of_translate built.translated
  have unique : commands = built.commands := Except.ok.inj (read.symm.trans built.read)
  rw [← unique]
  exact all

theorem start_length : built.start built.commands.length = built.program.size := by
  rw [start, List.take_length, position, text_eq, ← length_of_listing built.assembled, program]
  simp

end Built

theorem enclosing_draft (config : Config) (commands : List Command) :
    (draft config commands).emission.enclosing = (commands.filterMap Command.opens?).getLast? := by
  induction commands using List.reverseRecOn with
  | nil =>
      rw [draft_nil]
      rfl
  | append_singleton front command ih =>
      rw [draft_concat, List.filterMap_append, List.getLast?_append]
      cases read : command.operation with
      | error fault =>
          rw [extend_of_error read, ih]
          simp [Command.opens?, read]
      | ok operation =>
          rw [extend_of_operation read]
          cases operation <;> simp [Emission.advance, Command.opens?, read, ih]

section Symbols

variable {file : String}

theorem inherited_symbol : Inherited fun name => isSymbol name.toList = true := by
  refine ⟨by decide, by decide, ?_, ?_⟩
  · intro name other legal more
    exact isSymbol_append legal (symbolChar_of_isSymbol more)
  · intro name legal value
    exact isSymbol_append legal (symbolChar_toString value)

theorem legal_code (emission : Emission) (operation : Operation) (inFile : isSymbol file.toList = true)
    (own : ∀ name, operation.name? = some name → isSymbol name.toList = true)
    (enclosed : ∀ function, emission.enclosing = some function → isSymbol function.toList = true) :
    ∀ statement ∈ operation.code emission file, statement.Legal :=
  inherited_symbol.code emission operation inFile own enclosed

end Symbols

theorem means_of_mem {commands : List Command} {command : Command} {operation : Operation}
    (member : command ∈ commands) (read : command.operation = .ok operation) :
    ∃ index, Means commands index command.file operation := by
  obtain ⟨index, bound, rfl⟩ := List.getElem_of_mem member
  exact ⟨index, commands[index], List.getElem?_eq_getElem bound, read, rfl⟩

theorem exists_begins {commands : List Command} {index : Nat} {function : String}
    (inside : enclosing commands index = some function) : ∃ target, Begins commands function target := by
  obtain ⟨command, inTake, opens⟩ := List.mem_filterMap.mp (List.mem_of_getLast? inside)
  unfold Command.opens? at opens
  split at opens
  · next name locals read =>
      cases opens
      obtain ⟨target, means⟩ := means_of_mem (List.mem_of_mem_take inTake) read
      exact ⟨target, command.file, locals, means⟩
  · contradiction

namespace Built

variable {built : Built files config} {index : Nat} {file : String} {operation : Operation}

theorem file_symbol (closed : built.Closed) (means : Means built.commands index file operation) :
    isSymbol file.toList = true := by
  obtain ⟨command, found, _, rfl⟩ := means
  obtain ⟨⟨source, member, same⟩, _⟩ := clear_of_readFiles built.read command (List.mem_of_getElem? found)
  rw [same]
  exact closed.files source member

theorem enclosing_symbol (closed : built.Closed) (index : Nat) :
    ∀ function, enclosing built.commands index = some function → isSymbol function.toList = true := by
  intro function inside
  obtain ⟨_, file, locals, means⟩ := exists_begins inside
  exact closed.names _ file _ means function rfl

theorem emitted_of_countable (countable : ∀ file ∈ files, Countable file.name.toList) (index : Nat) :
    (draft config (built.commands.take index)).emission.emitted = built.start index := by
  have whole := clear_of_readFiles built.read
  refine (counted_of_countable config (fun command member => ?_) fun command member => ?_).emitted
  · obtain ⟨⟨file, inFiles, same⟩, _⟩ := whole command (List.mem_of_mem_take member)
    rw [same]
    exact countable file inFiles
  · exact (whole command (List.mem_of_mem_take member)).2

theorem emitted_eq_start (closed : built.Closed) (index : Nat) :
    (draft config (built.commands.take index)).emission.emitted = built.start index :=
  emitted_of_countable (fun file member => .of_clear (lineFeed_not_mem_symbol (closed.files file member))) index

/-- What the code of a command is read as stands at the start of the command and
ends at the start of the next. -/
theorem stands_own (means : Means built.commands index file operation) :
    ∃ own, Stands built.statements (built.start index) own ∧
      Reads (Statement.render
        (operation.code (draft config (built.commands.take index)).emission file)).toList own ∧
      built.start (index + 1) = built.start index + (code own).length := by
  obtain ⟨command, found, read, rfl⟩ := means
  obtain ⟨bound, rfl⟩ := List.getElem?_eq_some_iff.mp found
  have split : built.commands = built.commands.take index ++ built.commands[index] ::
      built.commands.drop (index + 1) := by
    rw [← List.drop_eq_getElem_cons bound, List.take_append_drop]
  have clear := (clear_of_readFiles built.read _ (List.getElem_mem bound)).2
  have reads := built.reads
  rw [← text_eq, split] at reads
  obtain ⟨before, own, after, whole, ownReads, place, next⟩ := exists_own clear read reads
  refine ⟨own, ⟨before, after, whole, place⟩, ownReads, ?_⟩
  rw [start, start, List.take_succ_eq_append_getElem bound, ← next, place]

theorem stands_code (closed : built.Closed) (means : Means built.commands index file operation) :
    ∃ emission : Emission, emission.emitted = built.start index ∧
      emission.enclosing = enclosing built.commands index ∧
      Stands built.statements (built.start index) (operation.code emission file) ∧
      built.start (index + 1) = built.start index + (code (operation.code emission file)).length := by
  have scope := enclosing_draft config (built.commands.take index)
  have enclosed := enclosing_symbol closed index
  rw [enclosing, ← scope] at enclosed
  have legal := legal_code (draft config (built.commands.take index)).emission operation
    (file_symbol closed means) (closed.names index file operation means) enclosed
  obtain ⟨own, stands, ownReads, next⟩ := stands_own means
  have same := reads_of_legal legal ownReads built.linked stands.mem
  subst same
  exact ⟨_, emitted_eq_start closed index, scope, stands, next⟩

theorem legal_openingCode (config : Config) : ∀ statement ∈ openingCode config, statement.Legal := by
  have setup : ∀ statement ∈ setupCode, statement.Legal := by
    simp [setupCode, Statement.Legal, isSymbol, opensSymbol]
  have init : ∀ name, (Operation.call "Sys.init" 0).name? = some name → isSymbol name.toList = true := by
    rintro name ⟨⟩
    decide
  have bootstrap : isSymbol "Bootstrap".toList = true := by decide
  have call := legal_code {} (.call "Sys.init" 0) bootstrap init (by simp)
  unfold openingCode
  split
  · exact List.forall_mem_append.mpr ⟨setup, call⟩
  · simp

theorem stands_openingCode : Stands built.statements 0 (openingCode config) ∧
    built.start 0 = (code (openingCode config)).length := by
  have reads := built.reads
  rw [← text_eq, ← List.nil_append built.commands] at reads
  obtain ⟨before, after, whole, front, place⟩ := exists_front reads
  rw [draft_nil] at front
  have inside : ∀ body ∈ code before, body ∈ code built.statements := by
    intro body member
    simp [whole, member]
  have same := reads_of_legal (legal_openingCode config) front built.linked inside
  subst same
  exact ⟨⟨[], after, by rw [whole]; rfl, rfl⟩, place.symm⟩

end Built

end Hack.Stack
