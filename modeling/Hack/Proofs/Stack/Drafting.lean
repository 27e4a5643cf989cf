import Mathlib.Data.List.Induction
import Hack.Stack.Translation
import Hack.Proofs.Assembly.Rendering
import Hack.Proofs.Stack.Reading

namespace Hack.Stack

open Hack.Assembly Hack.Text

/-- The text produced so far, and how far the emission has come. -/
structure Draft where
  text : String
  emission : Emission

def comment (annotate : Bool) (command : Command) : String :=
  if annotate then "// " ++ command.text ++ "\n" else ""

/-- Code that points `SP` to the stack. -/
def setupCode : List Statement :=
  [atNumber stackBase, set .d (.load .a), atName "SP", set .m .d]

def bootstrapCode : List Statement :=
  setupCode ++ callCode "Sys.init" (Emission.returnLabel {} "Bootstrap") 0

def openingCode (config : Config) : List Statement :=
  if config.bootstrap then bootstrapCode else []

namespace Draft

def opening (config : Config) : Draft :=
  let (text, emission) := if config.bootstrap then Emission.bootstrap {} else ("", {})
  ⟨text, emission⟩

/-- Goes on by the code of one command, or not at all. -/
def extend (config : Config) (draft : Draft) (command : Command) : Draft :=
  match draft.emission.generate config.annotate command with
  | .ok (code, after) => ⟨draft.text ++ code, after⟩
  | .error _ => draft

end Draft

/-- What has been translated after some commands. -/
def draft (config : Config) (commands : List Command) : Draft :=
  commands.foldl (Draft.extend config) (Draft.opening config)

variable {config : Config} {commands front back : List Command} {command : Command} {operation : Operation}
variable {emission after : Emission} {piece text : String} {files : List SourceFile} {file : String}

theorem draft_concat : draft config (front ++ [command]) = (draft config front).extend config command := by
  simp [draft]

theorem generate_of_operation (annotate : Bool) (read : command.operation = .ok operation) :
    emission.generate annotate command =
      .ok (comment annotate command ++ Statement.render (operation.code emission command.file),
        emission.advance operation (Statement.render (operation.code emission command.file))) := by
  rw [Emission.generate, read]
  rfl

theorem generate_cases (generated : emission.generate config.annotate command = .ok (piece, after)) :
    ∃ operation, command.operation = .ok operation ∧
      piece = comment config.annotate command ++ Statement.render (operation.code emission command.file) ∧
      after = emission.advance operation (Statement.render (operation.code emission command.file)) := by
  obtain ⟨operation, read, finished⟩ := steps_of_bind generated
  cases finished
  exact ⟨operation, read, rfl, rfl⟩

theorem extend_cases (config : Config) (draft : Draft) (command : Command) :
    (∃ operation, command.operation = .ok operation ∧
      draft.extend config command =
        ⟨draft.text ++ (comment config.annotate command ++
            Statement.render (operation.code draft.emission command.file)),
          draft.emission.advance operation (Statement.render (operation.code draft.emission command.file))⟩) ∨
      draft.extend config command = draft := by
  unfold Draft.extend
  split
  · next piece after generated =>
      obtain ⟨operation, read, rfl, rfl⟩ := generate_cases generated
      exact .inl ⟨operation, read, rfl⟩
  · exact .inr rfl

theorem extend_of_operation {draft : Draft} (read : command.operation = .ok operation) :
    draft.extend config command =
      ⟨draft.text ++ (comment config.annotate command ++
          Statement.render (operation.code draft.emission command.file)),
        draft.emission.advance operation (Statement.render (operation.code draft.emission command.file))⟩ := by
  rw [Draft.extend, generate_of_operation config.annotate read]

theorem extend_of_error {draft : Draft} {error : Error} (failed : command.operation = .error error) :
    draft.extend config command = draft := by
  rcases extend_cases config draft command with ⟨operation, read, _⟩ | same
  · rw [failed] at read
    contradiction
  · exact same

/-- The text of the commands is the text of a prefix and more. -/
theorem exists_text_append (config : Config) (front back : List Command) :
    ∃ rest, (draft config (front ++ back)).text = (draft config front).text ++ rest := by
  induction back using List.reverseRecOn with
  | nil => exact ⟨"", by simp⟩
  | append_singleton back command ih =>
      obtain ⟨rest, before⟩ := ih
      rw [← List.append_assoc, draft_concat]
      rcases extend_cases config (draft config (front ++ back)) command with ⟨_, _, same⟩ | same
      · rw [same, before]
        exact ⟨_, String.append_assoc⟩
      · exact ⟨rest, by rw [same, before]⟩

theorem foldl_of_generateAll {pieces : List String} {emission after : Emission}
    (generated : generateAll config.annotate commands emission = .ok (pieces, after)) (text : String) :
    commands.foldl (Draft.extend config) ⟨text, emission⟩ = ⟨text ++ String.join pieces, after⟩ ∧
      ∀ command ∈ commands, ∃ operation, command.operation = .ok operation := by
  unfold generateAll at generated
  induction commands generalizing text emission pieces with
  | nil =>
      cases generated
      exact ⟨by simp [String.join], by simp⟩
  | cons command rest ih =>
      obtain ⟨piece, middle, others, one, more, rfl⟩ := steps_of_runM generated
      obtain ⟨operation, read, rfl, rfl⟩ := generate_cases one
      obtain ⟨same, all⟩ := ih more (text ++ (comment config.annotate command ++
        Statement.render (operation.code emission command.file)))
      refine ⟨?_, List.forall_mem_cons.mpr ⟨⟨operation, read⟩, all⟩⟩
      rw [List.foldl_cons, extend_of_operation read, same, String.join_cons, String.append_assoc]

theorem draft_of_translateCommands (translated : translateCommands config commands = .ok (text, after)) :
    draft config commands = ⟨text, after⟩ ∧
      ∀ command ∈ commands, ∃ operation, command.operation = .ok operation := by
  unfold translateCommands at translated
  unfold draft Draft.opening
  generalize (if config.bootstrap then Emission.bootstrap {} else ("", {})) = start at translated ⊢
  obtain ⟨⟨pieces, last⟩, generated, finished⟩ := steps_of_bind translated
  cases finished
  obtain ⟨same, all⟩ := foldl_of_generateAll generated start.1
  rw [String.join_cons]
  exact ⟨same, all⟩

theorem commands_of_translate (translated : translate files config = .ok text) :
    ∃ commands after, readFiles files = .ok commands ∧ translateCommands config commands = .ok (text, after) := by
  obtain ⟨commands, read, rest⟩ := steps_of_bind translated
  obtain ⟨⟨found, after⟩, generated, finished⟩ := steps_of_bind rest
  cases finished
  exact ⟨commands, after, read, generated⟩

theorem draft_of_translate (translated : translate files config = .ok text) :
    ∃ commands, readFiles files = .ok commands ∧ (draft config commands).text = text ∧
      ∀ command ∈ commands, ∃ operation, command.operation = .ok operation := by
  obtain ⟨commands, after, read, generated⟩ := commands_of_translate translated
  obtain ⟨same, all⟩ := draft_of_translateCommands generated
  exact ⟨commands, read, by rw [same], all⟩

/-- The names that the code of an operation makes up or takes over. -/
def Operation.symbols (emission : Emission) (file : String) : Operation → List String
  | .push (.static index) | .pop (.static index) => [staticSymbol file index]
  | .label name | .goto name | .ifGoto name => [emission.qualify name]
  | .function name _ => [name]
  | .call name _ => [name, emission.returnLabel file]
  | _ => []

section Named

variable {property : String → Prop} {name : String}

@[simp] theorem named_atName : (atName name).Named property ↔ property name := Iff.rfl

@[simp] theorem named_atNumber (value : Nat) : (atNumber value).Named property := trivial

@[simp] theorem named_set (dest : Dest) (comp : Comp) : (set dest comp).Named property := trivial

@[simp] theorem named_jumpIf (comp : Comp) (jump : Jump) : (jumpIf comp jump).Named property := trivial

@[simp] theorem named_gotoA : gotoA.Named property := trivial

@[simp] theorem named_label : (Statement.label name).Named property ↔ property name := Iff.rfl

/-- All other names in the code of an operation are names of pointers. -/
theorem named_code (property : String → Prop) (emission : Emission) (file : String) (operation : Operation)
    (pointers : ∀ name ∈ ["SP", "LCL", "ARG", "THIS", "THAT", "R13", "R14"], property name)
    (own : ∀ name ∈ operation.symbols emission file, property name) :
    ∀ statement ∈ operation.code emission file, statement.Named property := by
  simp only [List.forall_mem_cons, List.not_mem_nil, false_implies, implies_true, and_true] at pointers
  obtain ⟨sp, lcl, arg, this, that, r13, r14⟩ := pointers
  have base : ∀ base : Base, property base.pointer := by
    rintro (_ | _ | _ | _)
    exacts [lcl, arg, this, that]
  have pop : ∀ statement ∈ popD, statement.Named property := by simp [popD, dropTop, sp]
  have push : ∀ value, ∀ statement ∈ pushComp value, statement.Named property := by
    simp [pushComp, growStack, sp]
  cases operation with
  | pushConstant value => simpa [Operation.code, pushD] using push .d
  | push cell =>
      simp only [Operation.code, List.forall_mem_append]
      refine ⟨?_, push .d⟩
      cases cell with
      | indirect segment index => simp [Cell.load, base]
      | fixed address => simp [Cell.load]
      | static index => simpa [Cell.load, Operation.symbols] using own
  | pop cell =>
      cases cell with
      | indirect segment index => simp [Operation.code, Cell.store, popD, dropTop, base, sp, r13]
      | fixed address => simp [Operation.code, Cell.store, popD, dropTop, sp]
      | static index =>
          simp only [Operation.code, Cell.store, List.forall_mem_append]
          exact ⟨pop, by simpa [Operation.symbols] using own⟩
  | arithmetic op =>
      have arithmetic : ∀ comp, ∀ statement ∈ binary comp, statement.Named property := by
        simp only [binary, List.forall_mem_append]
        intro comp
        exact ⟨⟨⟨pop, by simp [dropTop, sp]⟩, by simp⟩, push .d⟩
      have unaries : ∀ comp, ∀ statement ∈ unary comp, statement.Named property := by
        simp only [unary, List.forall_mem_append]
        intro comp
        exact ⟨⟨pop, by simp⟩, push .d⟩
      have comparisons : ∀ start jump, ∀ statement ∈ comparison start jump, statement.Named property := by
        simp only [comparison, List.forall_mem_append]
        intro start jump
        exact ⟨⟨⟨pop, by simp [dropTop, sp]⟩, by simp⟩, push .d⟩
      cases op with
      | add | sub | and | or => exact arithmetic _
      | neg | not => exact unaries _
      | eq | gt | lt => exact comparisons _ _
  | label label => simpa [Operation.code, Operation.symbols] using own
  | goto label => simpa [Operation.code, Operation.symbols] using own
  | ifGoto label =>
      simp only [Operation.code, List.forall_mem_append]
      exact ⟨pop, by simpa [Operation.symbols] using own⟩
  | function name locals =>
      simp only [Operation.code, functionCode, List.forall_mem_cons, List.mem_flatten]
      refine ⟨by simpa [Operation.symbols] using own, ?_⟩
      rintro statement ⟨block, member, inside⟩
      rw [List.eq_of_mem_replicate member] at inside
      exact push .zero statement inside
  | call name arguments =>
      obtain ⟨callee, label⟩ : property name ∧ property (emission.returnLabel file) := by
        simpa [Operation.symbols] using own
      have pointers : ∀ pointer ∈ ["LCL", "ARG", "THIS", "THAT"], property pointer := by
        simp [lcl, arg, this, that]
      simp only [Operation.code, callCode, List.forall_mem_append, List.mem_flatMap]
      refine ⟨⟨⟨by simp [label], push .d⟩, ?_⟩, by simp [sp, arg, lcl, callee, label]⟩
      rintro statement ⟨pointer, member, inside⟩
      have load : ∀ statement ∈ [atName pointer, set .d (.load .m)], statement.Named property := by
        simp [pointers pointer member]
      exact List.forall_mem_append.mpr ⟨load, push .d⟩ statement inside
  | ret => simp [Operation.code, returnCode, popD, dropTop, lcl, arg, this, that, r13, r14, sp]

/-- A property of names that the names which a translation makes up inherit. -/
structure Inherited (property : String → Prop) : Prop where
  pointers : ∀ name ∈ ["SP", "LCL", "ARG", "THIS", "THAT", "R13", "R14"], property name
  marks : ∀ mark ∈ ["$", "$ret.", "."], property mark
  append : ∀ name other, property name → property other → property (name ++ other)
  numbered : ∀ name, property name → ∀ value : Nat, property (name ++ toString value)

theorem Inherited.symbols (inherited : Inherited property) (inFile : property file)
    (own : ∀ name, operation.name? = some name → property name)
    (enclosed : ∀ function, emission.enclosing = some function → property function) :
    ∀ name ∈ operation.symbols emission file, property name := by
  obtain ⟨dollar, returns, dot⟩ : property "$" ∧ property "$ret." ∧ property "." := by
    simpa using inherited.marks
  have qualified : ∀ name, property name → property (emission.qualify name) := by
    intro name held
    unfold Emission.qualify
    split
    · next function found =>
        exact inherited.append _ _ (inherited.append _ _ (enclosed function found) dollar) held
    · exact held
  have scope : property (emission.enclosing.getD file) := by
    cases found : emission.enclosing with
    | none => exact inFile
    | some function => exact enclosed function found
  have returned : property (emission.returnLabel file) :=
    inherited.numbered _ (inherited.append _ _ scope returns) emission.returns
  have static : ∀ index, property (staticSymbol file index) :=
    inherited.numbered _ (inherited.append _ _ inFile dot)
  cases operation with
  | pushConstant value | arithmetic op | ret => simp [Operation.symbols]
  | push cell | pop cell => cases cell <;> simp [Operation.symbols, static]
  | label name | goto name | ifGoto name => simpa [Operation.symbols] using qualified name (own name rfl)
  | function name locals => simpa [Operation.symbols] using own name rfl
  | call name arguments => simpa [Operation.symbols, returned] using own name rfl

theorem Inherited.code (inherited : Inherited property) (emission : Emission) (operation : Operation)
    (inFile : property file) (own : ∀ name, operation.name? = some name → property name)
    (enclosed : ∀ function, emission.enclosing = some function → property function) :
    ∀ statement ∈ operation.code emission file, statement.Named property :=
  named_code property emission file operation inherited.pointers (inherited.symbols inFile own enclosed)

end Named

end Hack.Stack
