import Hack.Proofs.Assembly.Rejection

namespace Hack

/-- An error with another line number. -/
def Error.renumber (number : Nat → Nat) (error : Error) : Error :=
  match error.place with
  | .line line => ⟨.line (number line), error.fault⟩
  | .inFile _ _ => error

end Hack

namespace Hack.Assembly

open Hack.Text

def SourceLine.renumber (number : Nat → Nat) (line : SourceLine) : SourceLine :=
  { line with number := number line.number }

def ParsedLine.renumber (number : Nat → Nat) (line : ParsedLine) : ParsedLine :=
  { line with number := number line.number }

def Entry.renumber (number : Nat → Nat) (entry : Entry) : Entry :=
  { entry with line := number entry.line }

/-- A result under other line numbers. -/
def renumbered {α β : Type} (number : Nat → Nat) (change : α → β) (result : Except Error α) : Except Error β :=
  (result.map change).mapError (Error.renumber number)

/-- The number of the line that is the one at a position after cleaning, counted from one. -/
def originalNumber (source : String) (position : Nat) : Nat :=
  ((clean source)[position - 1]?.map SourceLine.number).getD 0

variable {α β γ δ σ : Type} {number : Nat → Nat} {source : String} {table : SymbolTable} {index : Nat}
variable {program : List ParsedLine} {line : SourceLine} {raw : List Char}

section Renumbering

theorem renumbered_bind {change : α → β} {next : α → Except Error γ} {renumberedNext : β → Except Error δ}
    {last : γ → δ} (action : Except Error α)
    (step : ∀ value, renumberedNext (change value) = renumbered number last (next value)) :
    renumbered number change action >>= renumberedNext = renumbered number last (action >>= next) := by
  cases action with
  | error error => rfl
  | ok value => exact step value

theorem mapM_renumbered {step : α → Except Error β} {other : γ → Except Error δ} {item : α → γ} {result : β → δ}
    (steps : ∀ x, other (item x) = renumbered number result (step x)) (list : List α) :
    (list.map item).mapM other = renumbered number (List.map result) (list.mapM step) := by
  induction list with
  | nil => rfl
  | cons first rest ih =>
      rw [List.map_cons, List.mapM_cons, List.mapM_cons, steps, ih]
      refine renumbered_bind _ fun value => ?_
      exact renumbered_bind _ fun values => rfl

theorem runM_renumbered {step : α → StateT σ (Except Error) β} {other : γ → StateT σ (Except Error) δ} {item : α → γ}
    {result : β → δ} (steps : ∀ x state, other (item x) state = renumbered number (Prod.map result id) (step x state))
    (list : List α) (state : σ) :
    (list.map item).mapM other state = renumbered number (Prod.map (List.map result) id) (list.mapM step state) := by
  induction list generalizing state with
  | nil => rfl
  | cons first rest ih =>
      rw [List.map_cons, List.mapM_cons, List.mapM_cons]
      change (other (item first) state >>= _) = renumbered number _ (step first state >>= _)
      rw [steps]
      refine renumbered_bind _ fun ⟨value, middle⟩ => ?_
      change ((rest.map item).mapM other middle >>= _) = renumbered number _ (rest.mapM step middle >>= _)
      rw [ih]
      exact renumbered_bind _ fun values => rfl

end Renumbering

theorem SourceLine.parse_renumber (line : SourceLine) :
    (line.renumber number).parse = renumbered number (ParsedLine.renumber number) line.parse := by
  unfold SourceLine.parse
  change (Place.blame _ (readStatement line.text.toList) >>= _) = _
  cases readStatement line.text.toList <;> rfl

theorem instructions_renumber : instructions (program.map (ParsedLine.renumber number)) =
    (instructions program).map (Prod.map (SourceLine.renumber number) id) := by
  rw [instructions, instructions, List.filterMap_map, List.map_filterMap]
  refine List.filterMap_congr fun line _ => ?_
  simp only [Function.comp_apply, ParsedLine.renumber]
  cases line.statement <;> rfl

theorem bindLabels_renumber : bindLabels table index (program.map (ParsedLine.renumber number)) =
    renumbered number id (bindLabels table index program) := by
  induction program generalizing table index with
  | nil => rfl
  | cons line rest ih =>
      simp only [List.map_cons, bindLabels, ParsedLine.renumber]
      cases line.statement with
      | instruction body => exact ih
      | label name =>
          cases bound : table.bindLabel name index with
          | error fault => simp only [bound]; rfl
          | ok next =>
              simp only [bound]
              exact ih

theorem encodeEntry_renumber (item : (SourceLine × Instruction) × Nat) (table : SymbolTable) :
    encodeEntry (Prod.map (Prod.map (SourceLine.renumber number) id) id item) table =
      renumbered number (Prod.map (Entry.renumber number) id) (encodeEntry item table) := by
  obtain ⟨⟨line, body⟩, index⟩ := item
  simp only [Prod.map_apply, id_eq, encodeEntry]
  cases encoded : body.encode table <;> rfl

theorem encodeProgram_renumber : encodeProgram (program.map (ParsedLine.renumber number)) =
    renumbered number (List.map (Entry.renumber number)) (encodeProgram program) := by
  rw [encodeProgram, encodeProgram, bindLabels_renumber]
  refine renumbered_bind _ fun table => ?_
  rw [instructions_renumber, encodeAll, List.zipIdx_map]
  change (((instructions program).zipIdx.map _).mapM encodeEntry table >>= _) =
    renumbered number _ ((instructions program).zipIdx.mapM encodeEntry table >>= _)
  rw [runM_renumbered encodeEntry_renumber]
  exact renumbered_bind _ fun entries => rfl

theorem isBlank_of_mem_cleanLine : ∀ c ∈ cleanLine raw, isBlank c = false := by
  intro c member
  have kept := (List.mem_filter.mp ((prefix_beforeComment _).subset member)).2
  simpa using kept

theorem cleanLine_cleanLine (raw : List Char) : cleanLine (cleanLine raw) = cleanLine raw := by
  have kept : (cleanLine raw).filter (fun c => !isBlank c) = cleanLine raw :=
    List.filter_eq_self.mpr fun c member => by simp [isBlank_of_mem_cleanLine c member]
  rw [cleanLine, kept]
  exact beforeComment_beforeComment _

theorem cleaned_of_mem_clean (member : line ∈ clean source) :
    line.text.toList ≠ [] ∧ '\n' ∉ line.text.toList ∧ cleanLine line.text.toList = line.text.toList := by
  obtain ⟨raw, _, _, same⟩ := mem_clean member
  have filled : line.text.toList ∈ cleanedLines source.toList := by
    rw [← map_text_clean]
    exact List.mem_map_of_mem member
  rw [← same] at filled ⊢
  refine ⟨by simpa using (List.mem_filter.mp filled).2, fun lineFeed => ?_, cleanLine_cleanLine raw⟩
  have blank := isBlank_of_mem_cleanLine _ lineFeed
  rw [isBlank_lineFeed] at blank
  contradiction

theorem lines_preprocess (source : String) :
    lines (preprocess source).toList = (clean source).map fun line => line.text.toList := by
  rw [preprocess, String.toList_intercalate, List.map_map]
  -- No cleaned line is empty or holds a line feed, so each is a line again.
  refine lines_intercalate fun part member => ?_
  obtain ⟨line, inside, rfl⟩ := List.mem_map.mp member
  obtain ⟨nonempty, clear, _⟩ := cleaned_of_mem_clean inside
  exact ⟨clear, nonempty⟩

theorem clean_preprocess (source : String) :
    clean (preprocess source) = ((clean source).zipIdx 1).map fun (line, position) => ⟨position, line.text⟩ := by
  have kept : ∀ line ∈ clean source, cleanLine line.text.toList = line.text.toList ∧ line.text.toList ≠ [] := by
    intro line member
    obtain ⟨nonempty, _, same⟩ := cleaned_of_mem_clean member
    exact ⟨same, nonempty⟩
  rw [clean, lines_preprocess]
  generalize clean source = list at kept
  generalize 1 = start
  induction list generalizing start with
  | nil => rfl
  | cons line rest ih =>
      obtain ⟨⟨same, nonempty⟩, others⟩ := List.forall_mem_cons.mp kept
      have one : (if line.text.toList.isEmpty then none
          else some (⟨start, String.ofList line.text.toList⟩ : SourceLine)) = some ⟨start, line.text⟩ := by
        simp [nonempty]
      simp only [List.map_cons, List.zipIdx_cons, List.filterMap_cons, same, one]
      rw [ih others]

theorem preprocess_preprocess (source : String) : preprocess (preprocess source) = preprocess source := by
  have texts : (clean (preprocess source)).map SourceLine.text = (clean source).map SourceLine.text := by
    rw [clean_preprocess, List.map_map]
    conv_rhs => rw [← List.zipIdx_map_fst 1 (clean source), List.map_map]
    rfl
  rw [preprocess, texts, preprocess]

theorem clean_eq_renumber (source : String) :
    clean source = (clean (preprocess source)).map (SourceLine.renumber (originalNumber source)) := by
  refine List.ext_getElem? fun i => ?_
  rw [clean_preprocess, List.map_map, List.getElem?_map, List.getElem?_zipIdx]
  cases found : (clean source)[i]? with
  | none => rfl
  | some line => simp [SourceLine.renumber, originalNumber, found]

theorem binaryText_renumber (entries : List Entry) :
    binaryText (entries.map (Entry.renumber number)) = binaryText entries := by
  rw [binaryText, binaryText, List.map_map]
  rfl

theorem assemble_eq_renumbered (source : String) :
    assemble source = renumbered (originalNumber source) id (assemble (preprocess source)) := by
  have parsed : parseLines (clean source) =
      renumbered (originalNumber source) (List.map (ParsedLine.renumber (originalNumber source)))
        (parseLines (clean (preprocess source))) := by
    conv_lhs => rw [clean_eq_renumber]
    exact mapM_renumbered SourceLine.parse_renumber _
  have listed : listing source =
      renumbered (originalNumber source) (List.map (Entry.renumber (originalNumber source)))
        (listing (preprocess source)) := by
    rw [listing, listing, parsed]
    exact renumbered_bind _ fun program => encodeProgram_renumber
  rw [assemble, assemble, listed]
  cases listing (preprocess source) with
  | error error => rfl
  | ok entries => exact congrArg Except.ok (binaryText_renumber entries)

/-- Two sources with the same binary text, or with the same fault at lines of their own. -/
def AssembledAlike (source other : String) : Prop :=
  (∃ binary, assemble source = .ok binary ∧ assemble other = .ok binary) ∨
    ∃ fault line otherLine, assemble source = .error ⟨.line line, fault⟩ ∧
      assemble other = .error ⟨.line otherLine, fault⟩

/-- What cleaning leaves of the lines is all that counts. -/
theorem assembledAlike_of_cleanedLines {other : String} (same : cleanedLines source.toList = cleanedLines other.toList) :
    AssembledAlike source other := by
  have texts : (clean source).map SourceLine.text = (clean other).map SourceLine.text := by
    rw [← map_text_clean, ← map_text_clean] at same
    simpa [Function.comp_def] using congrArg (List.map String.ofList) same
  have preprocessed : preprocess source = preprocess other := by rw [preprocess, texts, preprocess]
  rw [AssembledAlike, assemble_eq_renumbered source, assemble_eq_renumbered other, preprocessed]
  cases assembled : assemble (preprocess other) with
  | ok binary => exact .inl ⟨binary, rfl, rfl⟩
  | error error =>
      have rejected : Rejected (preprocess other) error := rejected_of_listing (error_of_map assembled)
      obtain ⟨line, _, place⟩ := rejected.place
      obtain ⟨_, fault⟩ := error
      subst place
      exact .inr ⟨fault, _, _, rfl, rfl⟩

/-- A source and its cleaned text are assembled alike: they have the same
binary text, or the same fault at lines that correspond. -/
theorem preprocess_faithful (source : String) :
    preprocess (preprocess source) = preprocess source ∧
      ((∃ binary, assemble (preprocess source) = .ok binary ∧ assemble source = .ok binary) ∨
        ∃ fault k line, 1 ≤ k ∧ (clean source)[k - 1]? = some line ∧
          assemble (preprocess source) = .error ⟨.line k, fault⟩ ∧
          assemble source = .error ⟨.line line.number, fault⟩) := by
  refine ⟨preprocess_preprocess source, ?_⟩
  rw [assemble_eq_renumbered source]
  cases assembled : assemble (preprocess source) with
  | ok binary => exact .inl ⟨binary, rfl, rfl⟩
  | error error =>
      have rejected : Rejected (preprocess source) error := rejected_of_listing (error_of_map assembled)
      obtain ⟨cleaned, member, place⟩ := rejected.place
      rw [clean_preprocess] at member
      obtain ⟨⟨line, position⟩, inside, rfl⟩ := List.mem_map.mp member
      obtain ⟨first, here⟩ := List.mk_mem_zipIdx_iff_le_and_getElem?_sub.mp inside
      obtain ⟨_, fault⟩ := error
      subst place
      have original : originalNumber source position = line.number := by simp [originalNumber, here]
      exact .inr ⟨fault, position, line, first, here, rfl, by rw [← original]; rfl⟩

end Hack.Assembly
