import Hack.Stack.Operation
import Hack.Stack.Source
import Hack.Proofs.Sequence

namespace Hack.Stack

open Hack.Text

/-- A command whose texts lie on one line. -/
structure Command.Clear (command : Command) : Prop where
  text : '\n' ∉ command.text.toList
  name : ∀ name, command.name = some name → ∀ c ∈ name.toList, isBlank c = false

variable {text : List Char} {command : Command}
variable {files : List SourceFile} {commands : List Command}

theorem lineFeed_not_mem_line {line : List Char} (member : line ∈ lines text) : '\n' ∉ line := by
  intro inside
  have closed := not_closes_of_mem_stretches member _ inside
  contradiction

theorem isBlank_of_mem_words {word : List Char} (member : word ∈ words text) :
    ∀ c ∈ word, isBlank c = false :=
  not_closes_of_mem_stretches (List.mem_filter.mp member).1

theorem trim_subset (text : List Char) : trim text ⊆ text := by
  intro c member
  have inner := (List.dropWhile_sublist _).subset (List.mem_reverse.mp member)
  exact (List.dropWhile_sublist _).subset (List.mem_reverse.mp inner)

theorem commandText_subset (line : List Char) : commandText line ⊆ line :=
  fun _ member => (prefix_beforeComment line).subset (trim_subset _ member)

theorem clear_of_readLine {file : String} {number : Nat} {line : List Char} (clear : '\n' ∉ line)
    (read : readLine file number line = .ok (some command)) : command.file = file ∧ command.Clear := by
  unfold readLine at read
  have inText : '\n' ∉ commandText line := fun member => clear (commandText_subset line member)
  have inWords : ∀ word ∈ words (commandText line), ∀ c ∈ word, isBlank c = false :=
    fun word member => isBlank_of_mem_words member
  generalize commandText line = text at read inText inWords
  cases parts : words text with
  | nil => simp [parts] at read
  | cons keyword arguments =>
      simp only [parts] at read
      have read := steps_of_blame read
      split at read
      · contradiction
      · next kind known =>
          obtain ⟨value, _, finished⟩ := steps_of_bind read
          cases finished
          refine ⟨rfl, by simpa using inText, fun name found => ?_⟩
          obtain ⟨word, first, rfl⟩ := Option.map_eq_some_iff.mp found
          have member : word ∈ words text := by
            rw [parts]
            exact List.mem_cons_of_mem _ (List.mem_of_getElem? first)
          simpa using inWords word member

theorem clear_of_readFiles (read : readFiles files = .ok commands) :
    ∀ command ∈ commands, (∃ file ∈ files, command.file = file.name) ∧ command.Clear := by
  intro command member
  obtain ⟨parts, each, finished⟩ := steps_of_bind read
  cases finished
  obtain ⟨part, inParts, inPart⟩ := List.mem_flatten.mp member
  obtain ⟨file, inFiles, fileRead⟩ := exists_of_mapM each part inParts
  obtain ⟨found, linesRead, finished⟩ := steps_of_bind fileRead
  cases finished
  obtain ⟨held, inFound, same⟩ := List.mem_filterMap.mp inPart
  cases same
  obtain ⟨⟨line, number⟩, inLines, lineRead⟩ := exists_of_mapM linesRead _ inFound
  have clear := lineFeed_not_mem_line (List.fst_mem_of_mem_zipIdx inLines)
  obtain ⟨sameFile, commandClear⟩ := clear_of_readLine clear lineRead
  exact ⟨⟨file, inFiles, sameFile⟩, commandClear⟩

/-- What the operation of a command takes from it. -/
inductive Understood (command : Command) : Operation → Prop where
  | pushConstant (value : Nat) (within : value ≤ maxAddress) : Understood command (.pushConstant value)
  | push {segment : Segment} {index : Nat} {cell : Cell} (found : segment.cell index = .ok cell) :
      Understood command (.push cell)
  | pop {segment : Segment} {index : Nat} {cell : Cell} (found : segment.cell index = .ok cell) :
      Understood command (.pop cell)
  | arithmetic (op : ArithmeticOp) : Understood command (.arithmetic op)
  | label {name : String} (given : command.name = some name) : Understood command (.label name)
  | goto {name : String} (given : command.name = some name) : Understood command (.goto name)
  | ifGoto {name : String} (given : command.name = some name) : Understood command (.ifGoto name)
  | function {name : String} (given : command.name = some name) (locals : Nat) :
      Understood command (.function name locals)
  | call {name : String} (given : command.name = some name) (arguments : Nat) :
      Understood command (.call name arguments)
  | ret : Understood command .ret

theorem name_of_requireName {name : String} (required : command.requireName = .ok name) :
    command.name = some name := by
  unfold Command.requireName at required
  split at required
  · next held =>
      cases required
      exact held
  · contradiction

theorem understood_of_requirePush {operation : Operation} (read : command.requirePush = .ok operation) :
    Understood command operation := by
  obtain ⟨⟨segment, index⟩, _, finished⟩ := steps_of_bind read
  cases segment with
  | constant =>
      simp only at finished
      split at finished
      · contradiction
      · next within =>
          cases finished
          exact .pushConstant index (Nat.le_of_not_lt within)
  | based base | temp | pointer | static =>
      obtain ⟨cell, found, finished⟩ := steps_of_bind finished
      cases finished
      exact .push found

theorem understood_of_requirePop {operation : Operation} (read : command.requirePop = .ok operation) :
    Understood command operation := by
  obtain ⟨⟨segment, index⟩, _, finished⟩ := steps_of_bind read
  obtain ⟨cell, found, finished⟩ := steps_of_bind finished
  cases finished
  exact .pop found

theorem understood_of_operation {operation : Operation} (read : command.operation = .ok operation) :
    Understood command operation := by
  have meaning : command.meaning = .ok operation := by
    unfold Command.operation at read
    cases found : command.meaning with
    | error fault =>
        rw [found] at read
        have failed : (.error (command.blame fault) : Except Error Operation) = .ok operation := read
        contradiction
    | ok value =>
        rw [found] at read
        have same : (.ok value : Except Error Operation) = .ok operation := read
        rw [Except.ok.inj same]
  unfold Command.meaning at meaning
  split at meaning
  · exact understood_of_requirePush meaning
  · exact understood_of_requirePop meaning
  · obtain ⟨name, required, rfl⟩ := steps_of_map meaning
    exact .label (name_of_requireName required)
  · obtain ⟨name, required, rfl⟩ := steps_of_map meaning
    exact .goto (name_of_requireName required)
  · obtain ⟨name, required, rfl⟩ := steps_of_map meaning
    exact .ifGoto (name_of_requireName required)
  · obtain ⟨name, required, finished⟩ := steps_of_bind meaning
    obtain ⟨locals, _, finished⟩ := steps_of_bind finished
    cases finished
    exact .function (name_of_requireName required) locals
  · obtain ⟨name, required, finished⟩ := steps_of_bind meaning
    obtain ⟨arguments, _, finished⟩ := steps_of_bind finished
    cases finished
    exact .call (name_of_requireName required) arguments
  · cases meaning
    exact .ret
  · cases meaning
    exact .arithmetic _

/-- The name that was written in a command. -/
def Operation.name? : Operation → Option String
  | .label name | .goto name | .ifGoto name | .function name _ | .call name _ => some name
  | _ => none

theorem name_of_operation {operation : Operation} {name : String} (read : command.operation = .ok operation)
    (named : operation.name? = some name) : command.name = some name := by
  cases understood_of_operation read with
  | label given | goto given | ifGoto given | function given | call given => exact given.trans named
  | _ => contradiction

/-- The fixed cells that a program can name are those of two segments. -/
theorem fixed_of_segment {segment : Segment} {index address : Nat}
    (found : segment.cell index = .ok (.fixed address)) : 3 ≤ address ∧ address ≤ 12 := by
  have ranges : ∀ {range : Nat × Nat}, Segment.cell.within segment index range = .ok (.fixed address) →
      range.1 ≤ address ∧ address < range.1 + range.2 := by
    intro range within
    unfold Segment.cell.within at within
    split at within
    · next bound =>
        cases within
        exact ⟨Nat.le_add_right _ _, Nat.add_lt_add_left bound _⟩
    · contradiction
  cases segment with
  | constant | based base | static => cases found
  | temp =>
      have bounds := ranges found
      simp only [Segment.tempRange] at bounds
      omega
  | pointer =>
      have bounds := ranges found
      simp only [Segment.pointerRange] at bounds
      omega

theorem fixed_of_operation {address : Nat} (read : command.operation = .ok (.push (.fixed address))) :
    3 ≤ address ∧ address ≤ 12 := by
  cases understood_of_operation read with
  | push found => exact fixed_of_segment found

end Hack.Stack
