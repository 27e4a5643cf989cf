import Hack.Proofs.Stack.Drafting
import Hack.Proofs.Stack.Language

namespace Hack.Stack

open Hack.Text

/-- A line that holds nothing, or a command that makes sense. -/
def PlacedLine.Accepted (line : PlacedLine) : Prop :=
  ∃ held, line.Holds held ∧ ∀ command ∈ held, command.WellFormed

/-- The error for files that cannot be translated. -/
inductive Refused (files : List SourceFile) : Error → Prop where
  | line {front back : List PlacedLine} {line : PlacedLine} {fault : Fault}
      (split : placedLines files = front ++ line :: back) (earlier : ∀ other ∈ front, ∃ held, other.Holds held)
      (garbled : line.Garbled fault) : Refused files ⟨line.place, fault⟩
  | command {front back : List PlacedLine} {line : PlacedLine} {command : Command} {fault : Fault}
      (readable : ∀ other ∈ placedLines files, ∃ held, other.Holds held)
      (split : placedLines files = front ++ line :: back) (earlier : ∀ other ∈ front, other.Accepted)
      (holds : line.Holds (some command)) (illFormed : command.IllFormed fault) :
      Refused files (command.blame fault)

/-- The command in a line that can be read. -/
def PlacedLine.command? (line : PlacedLine) : Option Command :=
  match line.read with
  | .ok held => held
  | .error _ => none

variable {files : List SourceFile} {config : Config} {commands : List Command} {command : Command}
variable {line : PlacedLine} {held : Option Command} {error : Error} {annotate : Bool} {emission : Emission}

theorem PlacedLine.command?_of_holds (holds : line.Holds held) : line.command? = held := by
  rw [command?, read_of_holds holds]

theorem readFile_eq (file : SourceFile) :
    readFile file = (file.lines.mapM PlacedLine.read).map fun found => found.filterMap id := by
  rw [SourceFile.lines, List.mapM_map]
  rfl

theorem readFiles_cons (file : SourceFile) (rest : List SourceFile) :
    readFiles (file :: rest) = do
      let commands ← readFile file
      let others ← readFiles rest
      return commands ++ others := by
  simp only [readFiles, List.mapM_cons, bind_assoc, pure_bind, List.flatten_cons]

theorem readFiles_append (front back : List SourceFile) : readFiles (front ++ back) = do
    let commands ← readFiles front
    let others ← readFiles back
    return commands ++ others := by
  simp [readFiles, List.mapM_append]

theorem readFiles_eq (files : List SourceFile) :
    readFiles files = ((placedLines files).mapM PlacedLine.read).map fun found => found.filterMap id := by
  induction files with
  | nil => rfl
  | cons file rest ih =>
      have split : placedLines (file :: rest) = file.lines ++ placedLines rest := List.flatMap_cons
      rw [readFiles_cons, readFile_eq, ih, split, List.mapM_append]
      -- Where the lines of this file cannot be read, both sides stop before the others.
      cases file.lines.mapM PlacedLine.read with
      | error error => rfl
      | ok found =>
          cases (placedLines rest).mapM PlacedLine.read with
          | error error => rfl
          | ok others => simp [Except.map, ok_bind]

theorem readFiles_of_readable (readable : ∀ line ∈ placedLines files, ∃ held, line.Holds held) :
    readFiles files = .ok ((placedLines files).filterMap PlacedLine.command?) := by
  have read : (placedLines files).mapM PlacedLine.read = .ok ((placedLines files).map PlacedLine.command?) := by
    rw [mapM_eq_ok_iff, List.forall₂_map_right_iff]
    refine List.forall₂_same.mpr fun line member => ?_
    obtain ⟨held, holds⟩ := readable line member
    rw [PlacedLine.read_of_holds holds, PlacedLine.command?_of_holds holds]
  rw [readFiles_eq, read]
  simp [Except.map]

/-- Generating code finds nothing wrong but with a command, whatever the emission has come to. -/
theorem generateAll_of_error (failed : commands.mapM Command.operation = .error error) :
    generateAll annotate commands emission = .error error := by
  unfold generateAll
  induction commands generalizing emission with
  | nil => cases failed
  | cons command rest ih =>
      rw [List.mapM_cons] at failed
      rcases error_of_bind failed with here | ⟨operation, one, failed⟩
      · refine runM_failed ?_
        rw [Emission.generate, here]
        rfl
      · rcases error_of_bind failed with later | ⟨_, _, finished⟩
        · exact runM_cons_error (generate_of_operation annotate one) (ih later)
        · cases finished

theorem exists_generateAll (meaningful : ∀ command ∈ commands, ∃ operation, command.operation = .ok operation) :
    ∃ pieces after, generateAll annotate commands emission = .ok (pieces, after) := by
  unfold generateAll
  induction commands generalizing emission with
  | nil => exact ⟨[], emission, rfl⟩
  | cons command rest ih =>
      obtain ⟨⟨operation, one⟩, more⟩ := List.forall_mem_cons.mp meaningful
      have generated : emission.generate annotate command = .ok _ := generate_of_operation annotate one
      obtain ⟨pieces, after, others⟩ := ih more
      exact ⟨_, after, runM_cons_ok generated others⟩

theorem translateCommands_of_error (config : Config) (failed : commands.mapM Command.operation = .error error) :
    translateCommands config commands = .error error := by
  unfold translateCommands
  generalize (if config.bootstrap then Emission.bootstrap {} else ("", {})) = start
  change ((generateAll _ _) start.2 >>= _) = _
  rw [generateAll_of_error failed, error_bind]

theorem exists_translateCommands (config : Config)
    (meaningful : ∀ command ∈ commands, ∃ operation, command.operation = .ok operation) :
    ∃ text after, translateCommands config commands = .ok (text, after) := by
  unfold translateCommands
  generalize (if config.bootstrap then Emission.bootstrap {} else ("", {})) = start
  obtain ⟨pieces, after, generated⟩ := exists_generateAll meaningful
  refine ⟨String.join (start.1 :: pieces), after, ?_⟩
  change ((generateAll _ _) start.2 >>= _) = _
  rw [generated, ok_bind]
  rfl

theorem translate_of_readable (config : Config) (readable : ∀ line ∈ placedLines files, ∃ held, line.Holds held) :
    translate files config =
      (translateCommands config ((placedLines files).filterMap PlacedLine.command?)).map Prod.fst := by
  rw [translate, readFiles_of_readable readable]
  rfl

theorem operation_of_accepted (accepted : line.Accepted) (holds : line.command? = some command) :
    ∃ operation, command.operation = .ok operation := by
  obtain ⟨held, found, wellFormed⟩ := accepted
  rw [PlacedLine.command?_of_holds found] at holds
  obtain ⟨operation, meaning⟩ := Command.meaning_of_wellFormed (wellFormed command holds)
  refine ⟨operation, ?_⟩
  rw [Command.operation, meaning]
  rfl

theorem translate_of_refused (refused : Refused files error) : translate files config = .error error := by
  cases refused with
  | @line front back line fault split earlier garbled =>
      have passed : ∀ other ∈ front, ∃ held, other.read = .ok held := by
        intro other member
        obtain ⟨held, holds⟩ := earlier other member
        exact ⟨held, PlacedLine.read_of_holds holds⟩
      have failed := mapM_eq_error_iff.mpr ⟨_, _, _, split, passed, PlacedLine.read_of_garbled garbled⟩
      rw [translate, readFiles_eq, failed]
      rfl
  | @command front back line command fault readable split earlier holds illFormed =>
      have commands : (placedLines files).filterMap PlacedLine.command? =
          front.filterMap PlacedLine.command? ++ command :: back.filterMap PlacedLine.command? := by
        rw [split, List.filterMap_append, List.filterMap_cons_some (PlacedLine.command?_of_holds holds)]
      have passed : ∀ other ∈ front.filterMap PlacedLine.command?, ∃ operation, other.operation = .ok operation := by
        intro other member
        obtain ⟨line, inside, found⟩ := List.mem_filterMap.mp member
        exact operation_of_accepted (earlier line inside) found
      have here : command.operation = .error (command.blame fault) := by
        rw [Command.operation, Command.meaning_of_illFormed illFormed]
        rfl
      have failed := mapM_eq_error_iff.mpr ⟨_, _, _, commands, passed, here⟩
      rw [translate_of_readable config readable, translateCommands_of_error config failed]
      rfl

theorem exists_translate (config : Config) (accepted : ∀ line ∈ placedLines files, line.Accepted) :
    ∃ text, translate files config = .ok text := by
  have readable : ∀ line ∈ placedLines files, ∃ held, line.Holds held := by
    intro line member
    obtain ⟨held, holds, _⟩ := accepted line member
    exact ⟨held, holds⟩
  have meaningful : ∀ command ∈ (placedLines files).filterMap PlacedLine.command?,
      ∃ operation, command.operation = .ok operation := by
    intro command member
    obtain ⟨line, inside, found⟩ := List.mem_filterMap.mp member
    exact operation_of_accepted (accepted line inside) found
  obtain ⟨text, after, translated⟩ := exists_translateCommands config meaningful
  refine ⟨text, ?_⟩
  rw [translate_of_readable config readable, translated]
  rfl

theorem accepted_or_refused (files : List SourceFile) :
    (∀ line ∈ placedLines files, line.Accepted) ∨ ∃ error, Refused files error := by
  rcases forall_or_first (fun line => ∃ held, PlacedLine.Holds line held) (placedLines files) with
    readable | ⟨front, line, back, split, earlier, unreadable⟩
  · rcases forall_or_first PlacedLine.Accepted (placedLines files) with
      accepted | ⟨front, line, back, split, earlier, unaccepted⟩
    · exact .inl accepted
    · obtain ⟨held, holds⟩ := readable line (by simp [split])
      cases held with
      | none => exact absurd ⟨none, holds, nofun⟩ unaccepted
      | some command =>
          rcases command.wellFormed_or_illFormed with wellFormed | ⟨fault, illFormed⟩
          · refine absurd ⟨some command, holds, ?_⟩ unaccepted
            rintro _ ⟨⟩
            exact wellFormed
          · exact .inr ⟨_, .command readable split earlier holds illFormed⟩
  · obtain ⟨fault, garbled⟩ := line.holds_or_garbled.resolve_left unreadable
    exact .inr ⟨_, .line split earlier garbled⟩

/-- A line for which an error is reported, and how the error names it. -/
structure PlacedLine.Blamed (line : PlacedLine) (error : Error) : Prop where
  found : line.Garbled error.fault ∨ ∃ command, line.Holds (some command) ∧ command.IllFormed error.fault
  place : error.place = line.place ∨ (∃ value, error.fault = .addressOverflow value) ∧ error.place = .line line.number

theorem place_of_blame (command : Command) (fault : Fault) :
    (command.blame fault).fault = fault ∧ ((command.blame fault).place = .inFile command.file command.line ∨
      (∃ value, fault = .addressOverflow value) ∧ (command.blame fault).place = .line command.line) := by
  unfold Command.blame
  split
  · next value => exact ⟨rfl, .inr ⟨⟨value, rfl⟩, rfl⟩⟩
  · exact ⟨rfl, .inl rfl⟩

theorem PlacedLine.Holds.standing (holds : line.Holds (some command)) :
    command.file = line.file ∧ command.line = line.number := by
  cases holds
  exact ⟨rfl, rfl⟩

theorem Refused.blamed (refused : Refused files error) : ∃ line ∈ placedLines files, line.Blamed error := by
  cases refused with
  | @line front back line fault split earlier garbled =>
      exact ⟨line, by simp [split], .inl garbled, .inl rfl⟩
  | @command front back line command fault readable split earlier holds illFormed =>
      obtain ⟨sameFile, sameLine⟩ := holds.standing
      obtain ⟨same, place⟩ := place_of_blame command fault
      refine ⟨line, by simp [split], .inr ⟨command, holds, same.symm ▸ illFormed⟩, ?_⟩
      rw [same, PlacedLine.place, ← sameFile, ← sameLine]
      exact place

theorem exists_of_mem_placedLines (member : line ∈ placedLines files) :
    ∃ file ∈ files, line.file = file.name ∧ 1 ≤ line.number ∧
      (lines file.text.toList)[line.number - 1]? = some line.text := by
  obtain ⟨file, inFiles, inside⟩ := List.mem_flatMap.mp member
  obtain ⟨⟨text, number⟩, numbered, rfl⟩ := List.mem_map.mp inside
  obtain ⟨least, _, here⟩ := List.mem_zipIdx numbered
  refine ⟨file, inFiles, rfl, least, ?_⟩
  simp [here]

/-- Files are translated exactly when all their lines are in the language.
Otherwise the first line that cannot be read is reported, or else the first
command that makes no sense. -/
theorem translate_accepts (files : List SourceFile) (config : Config) (error : Error) :
    ((∃ text, translate files config = .ok text) ↔ ∀ line ∈ placedLines files, line.Accepted) ∧
      (translate files config = .error error ↔ Refused files error) ∧
      (Refused files error → ∃ line ∈ placedLines files, line.Blamed error ∧
        ∃ file ∈ files, line.file = file.name ∧ 1 ≤ line.number ∧
          (lines file.text.toList)[line.number - 1]? = some line.text) := by
  refine ⟨⟨fun ⟨text, translated⟩ => ?_, exists_translate config⟩, ⟨fun failed => ?_, translate_of_refused⟩, fun refused => ?_⟩
  · rcases accepted_or_refused files with accepted | ⟨error, refused⟩
    · exact accepted
    · rw [translate_of_refused refused] at translated
      contradiction
  · rcases accepted_or_refused files with accepted | ⟨other, refused⟩
    · obtain ⟨text, translated⟩ := exists_translate config accepted
      rw [translated] at failed
      contradiction
    · rw [translate_of_refused refused] at failed
      cases failed
      exact refused
  · obtain ⟨line, member, blamed⟩ := refused.blamed
    exact ⟨line, member, blamed, exists_of_mem_placedLines member⟩

end Hack.Stack
