import Hack.Proofs.Stack.Acceptance

namespace Hack

/-- The faults are of one variant, whatever texts and numbers they hold. -/
def Fault.SameVariant (fault other : Fault) : Prop :=
  fault.ctorIdx = other.ctorIdx

def Error.SameVariant (error other : Error) : Prop :=
  error.fault.SameVariant other.fault

namespace Stack

open Hack.Text

/-- The words of the lines of a text, without comments and blank lines. -/
def wordLines (text : List Char) : List (List (List Char)) :=
  ((lines text).map fun line => words (beforeComment line)).filter fun found => !found.isEmpty

/-- What a file says: its name and the words of its lines. -/
def SourceFile.words (file : SourceFile) : String × List (List (List Char)) :=
  (file.name, wordLines file.text.toList)

def PlacedLine.words (line : PlacedLine) : List (List Char) :=
  Text.words (beforeComment line.text)

def spokenLines (files : List SourceFile) : List PlacedLine :=
  (placedLines files).filter fun line => !line.words.isEmpty

structure PlacedLine.Alike (line other : PlacedLine) : Prop where
  file : line.file = other.file
  words : line.words = other.words

/-- The commands differ at most in how and in which line they were written. -/
structure Command.Alike (command other : Command) : Prop where
  kind : command.kind = other.kind
  name : command.name = other.name
  number : command.number = other.number
  file : command.file = other.file

variable {files others : List SourceFile} {line otherLine : PlacedLine} {command other : Command}
variable {commands : List Command}

abbrev Agrees {α : Type} (first second : Except Fault α) : Prop :=
  EndAlike Eq Fault.SameVariant first second

theorem agrees_refl {α : Type} (answer : Except Fault α) : Agrees answer answer := by
  cases answer with
  | ok value => exact .ok rfl
  | error fault => exact .error rfl

theorem alike_blame {α β : Type} {values : α → β → Prop} {first : Except Fault α} {second : Except Fault β}
    (alike : EndAlike values Fault.SameVariant first second) (place otherPlace : Place) :
    EndAlike values Error.SameVariant (place.blame first) (otherPlace.blame second) :=
  alike.mapError fun _ _ same => same

namespace Command.Alike

variable (alike : command.Alike other)

include alike

theorem requireName : Agrees command.requireName other.requireName := by
  unfold Command.requireName
  rw [alike.name]
  cases other.name with
  | none => exact .error rfl
  | some name => exact .ok rfl

theorem requireNumber : Agrees command.requireNumber other.requireNumber := by
  unfold Command.requireNumber
  rw [alike.number]
  cases other.number with
  | none => exact .error rfl
  | some number => exact .ok rfl

theorem requireSlot : Agrees command.requireSlot other.requireSlot := by
  refine alike.requireName.bind fun name _ same => ?_
  subst same
  cases Segment.ofName? name with
  | none => exact .error rfl
  | some segment =>
      refine alike.requireNumber.bind fun number _ same => ?_
      subst same
      exact .ok rfl

theorem meaning : Agrees command.meaning other.meaning := by
  unfold Command.meaning
  rw [alike.kind]
  cases other.kind with
  | push =>
      refine alike.requireSlot.bind fun slot _ same => ?_
      subst same
      exact agrees_refl _
  | pop =>
      refine alike.requireSlot.bind fun slot _ same => ?_
      subst same
      exact agrees_refl _
  | label | goto | ifGoto => exact alike.requireName.map fun _ _ same => congrArg _ same
  | function | call =>
      refine alike.requireName.bind fun name _ same => ?_
      subst same
      refine alike.requireNumber.bind fun number _ same => ?_
      subst same
      exact .ok rfl
  | ret | arithmetic op => exact agrees_refl _

theorem operation : EndAlike Eq Error.SameVariant command.operation other.operation := by
  refine alike.meaning.mapError fun fault otherFault same => ?_
  rw [Error.SameVariant, (place_of_blame command fault).1, (place_of_blame other otherFault).1]
  exact same

theorem generate (emission : Emission) :
    EndAlike (fun found changed => found.1 = changed.1 ∧ found.2 = changed.2) Error.SameVariant
      (emission.generate false command) (emission.generate false other) := by
  refine alike.operation.bind fun operation _ same => ?_
  subst same
  rw [alike.file]
  exact .ok ⟨rfl, rfl⟩

end Command.Alike

theorem PlacedLine.read_eq (line : PlacedLine) : line.read =
    match line.words with
    | [] => .ok none
    | keyword :: arguments =>
        line.place.blame do
          match CommandKind.ofKeyword? (String.ofList keyword) with
          | none => .error (.unknownCommand (String.ofList (commandText line.text)))
          | some kind =>
              let number ← readNumber arguments[1]?
              return some
                { kind := kind
                  name := arguments[0]?.map String.ofList
                  number := number
                  file := line.file
                  line := line.number
                  text := String.ofList (commandText line.text) } := by
  simp only [PlacedLine.read, readLine, commandText, words_trim, PlacedLine.words]
  rfl

theorem PlacedLine.Alike.read (alike : line.Alike otherLine) :
    EndAlike (Option.Rel Command.Alike) Error.SameVariant line.read otherLine.read := by
  rw [PlacedLine.read_eq, PlacedLine.read_eq, alike.words]
  cases otherLine.words with
  | nil => exact .ok .none
  | cons keyword arguments =>
      refine alike_blame ?_ _ _
      cases CommandKind.ofKeyword? (String.ofList keyword) with
      | none => exact .error rfl
      | some kind =>
          refine (agrees_refl (readNumber arguments[1]?)).bind fun number _ same => ?_
          subst same
          exact .ok (.some ⟨rfl, rfl, rfl, alike.file⟩)

theorem read_of_unspoken (unspoken : (!line.words.isEmpty) = false) : line.read = .ok none := by
  have empty : line.words = [] := by simpa using unspoken
  rw [PlacedLine.read_eq, empty]

theorem readFiles_spoken (files : List SourceFile) :
    readFiles files = ((spokenLines files).mapM PlacedLine.read).map fun found => found.filterMap id := by
  rw [readFiles_eq, spokenLines, found_filter _ fun line => read_of_unspoken]

theorem holds_of_read {held : Option Command} (read : line.read = .ok held) : line.Holds held := by
  rcases line.holds_or_garbled with ⟨found, holds⟩ | ⟨fault, garbled⟩
  · rw [PlacedLine.read_of_holds holds] at read
    cases read
    exact holds
  · rw [PlacedLine.read_of_garbled garbled] at read
    cases read

theorem command_of_spoken {held : Option Command} (spoken : (!line.words.isEmpty) = true) (holds : line.Holds held) :
    ∃ command, held = some command := by
  cases holds with
  | nothing blank =>
      have unspoken : line.words = [] := words_eq_nil_iff.mpr blank
      rw [unspoken] at spoken
      contradiction
  | command split numbered => exact ⟨_, rfl⟩

theorem readFiles_eq_ok_iff : readFiles files = .ok commands ↔
    List.Forall₂ (fun line command => line.Holds (some command)) (spokenLines files) commands := by
  constructor
  · intro read
    rw [readFiles_spoken] at read
    obtain ⟨found, lines, rfl⟩ := steps_of_map read
    have spoken : ∀ line ∈ spokenLines files, (!line.words.isEmpty) = true :=
      fun line member => (List.mem_filter.mp member).2
    replace lines := mapM_eq_ok_iff.mp lines
    clear read
    generalize spokenLines files = list at spoken lines
    induction lines with
    | nil => exact .nil
    | cons one _ ih =>
        -- A line with words does not hold nothing, so no result is dropped.
        obtain ⟨here, others⟩ := List.forall_mem_cons.mp spoken
        have holds := holds_of_read one
        obtain ⟨command, rfl⟩ := command_of_spoken here holds
        exact .cons holds (ih others)
  · intro lines
    have reads : (spokenLines files).mapM PlacedLine.read = .ok (commands.map some) := by
      rw [mapM_eq_ok_iff, List.forall₂_map_right_iff]
      exact lines.imp fun _ _ => PlacedLine.read_of_holds
    rw [readFiles_spoken, reads]
    simp [Except.map]

theorem said_file (file : SourceFile) :
    (file.lines.filter fun line => !line.words.isEmpty).map (fun line => (line.file, line.words)) =
      (wordLines file.text.toList).map fun words => (file.name, words) := by
  have numbered : (lines file.text.toList).map (fun line => words (beforeComment line)) =
      ((lines file.text.toList).zipIdx 1).map ((fun line => words (beforeComment line)) ∘ Prod.fst) := by
    rw [← List.map_map, List.zipIdx_map_fst]
  rw [wordLines, numbered, SourceFile.lines]
  simp only [List.filter_map, List.map_map]
  rfl

theorem said_spokenLines (files : List SourceFile) :
    (spokenLines files).map (fun line => (line.file, line.words)) =
      (files.map SourceFile.words).flatMap fun (name, found) => found.map fun words => (name, words) := by
  rw [spokenLines, placedLines, List.filter_flatMap, List.map_flatMap, List.flatMap_map]
  exact List.flatMap_congr fun file _ => said_file file

theorem spokenLines_alike (same : files.map SourceFile.words = others.map SourceFile.words) :
    List.Forall₂ PlacedLine.Alike (spokenLines files) (spokenLines others) := by
  have said : (spokenLines files).map (fun line => (line.file, line.words)) =
      (spokenLines others).map fun line => (line.file, line.words) := by
    rw [said_spokenLines, same, said_spokenLines]
  rw [← List.forall₂_eq_eq_eq, List.forall₂_map_left_iff, List.forall₂_map_right_iff] at said
  exact said.imp fun line other pairs => ⟨(Prod.mk.inj pairs).1, (Prod.mk.inj pairs).2⟩

theorem found_alike {held : List (Option Command)} {otherHeld : List (Option Command)}
    (alike : List.Forall₂ (Option.Rel Command.Alike) held otherHeld) :
    List.Forall₂ Command.Alike (held.filterMap id) (otherHeld.filterMap id) := by
  induction alike with
  | nil => exact .nil
  | cons one _ ih =>
      cases one with
      | none => exact ih
      | some here => exact .cons here ih

theorem readFiles_alike (same : files.map SourceFile.words = others.map SourceFile.words) :
    EndAlike (List.Forall₂ Command.Alike) Error.SameVariant (readFiles files) (readFiles others) := by
  rw [readFiles_spoken, readFiles_spoken]
  refine EndAlike.map ?_ fun _ _ => found_alike
  exact EndAlike.mapM (fun _ _ => PlacedLine.Alike.read) (spokenLines_alike same)

theorem translateCommands_alike {commands otherCommands : List Command}
    (alike : List.Forall₂ Command.Alike commands otherCommands) (bootstrap : Bool) :
    EndAlike Eq Error.SameVariant (translateCommands ⟨bootstrap, false⟩ commands)
      (translateCommands ⟨bootstrap, false⟩ otherCommands) := by
  have steps : ∀ (command other : Command) (state otherState : Emission), command.Alike other → state = otherState →
      EndAlike (fun found changed => found.1 = changed.1 ∧ found.2 = changed.2) Error.SameVariant
        (state.generate false command) (otherState.generate false other) := by
    intro command other state otherState alike same
    subst same
    exact alike.generate state
  refine (EndAlike.runM steps alike rfl).bind fun found changed together => ?_
  obtain ⟨pieces, after⟩ := together
  rw [List.forall₂_eq_eq_eq] at pieces
  exact .ok (by rw [pieces, after])

theorem translate_alike_words (same : files.map SourceFile.words = others.map SourceFile.words) (bootstrap : Bool) :
    EndAlike Eq Error.SameVariant (translate files ⟨bootstrap, false⟩) (translate others ⟨bootstrap, false⟩) := by
  refine (readFiles_alike same).bind fun commands otherCommands alike => ?_
  refine (translateCommands_alike alike bootstrap).bind fun found changed together => ?_
  exact .ok (congrArg Prod.fst together)

/-- Files are read one after the other and line by line, and their translation is
a matter of the words in them. -/
theorem translation_goes_by_words :
    (∀ front back : List SourceFile, readFiles (front ++ back) = do
        let commands ← readFiles front
        let others ← readFiles back
        return commands ++ others) ∧
      (∀ (files : List SourceFile) (commands : List Command), readFiles files = .ok commands ↔
        List.Forall₂ (fun line command => line.Holds (some command)) (spokenLines files) commands) ∧
      ∀ (files others : List SourceFile) (bootstrap : Bool),
        files.map SourceFile.words = others.map SourceFile.words →
          EndAlike Eq Error.SameVariant (translate files ⟨bootstrap, false⟩) (translate others ⟨bootstrap, false⟩) := by
  refine ⟨readFiles_append, fun files commands => readFiles_eq_ok_iff, fun files others bootstrap same => ?_⟩
  exact translate_alike_words same bootstrap

def compact : List SourceFile :=
  [⟨"Main", "function Main.f 0\npush constant 1\nlabel X\ngoto X"⟩, ⟨"B", "push static 2\nreturn"⟩]

def spread : List SourceFile :=
  [⟨"Main", "// main\r\nfunction  Main.f\t0\r\n\r\n  push constant 1 // one\r\nlabel X//\r\n\tgoto X\r\n"⟩,
    ⟨"B", "\n\n push static 2\n//\nreturn \n"⟩]

theorem translation_goes_by_words_spread : ∃ text, compact.map SourceFile.words = spread.map SourceFile.words ∧
    translate compact ⟨true, false⟩ = .ok text ∧ translate spread ⟨true, false⟩ = .ok text := by
  have same : compact.map SourceFile.words = spread.map SourceFile.words := by decide +kernel
  obtain ⟨text, translated⟩ : ∃ text, translate compact ⟨true, false⟩ = .ok text :=
    exists_ok_of_isSome (by decide +kernel)
  have alike := translation_goes_by_words.2.2 compact spread true same
  exact ⟨text, same, translated, alike.eq_ok translated⟩

end Stack

end Hack
