import Hack.Proofs.Assembly.Linking

namespace Hack.Assembly

open Hack.Text

/-- The faults of a line that is no statement. -/
inductive Misread : Fault → Prop where
  | symbol (token : String) : Misread (.invalidSymbol token)
  | mnemonic (field : Field) (token : String) : Misread (.invalidMnemonic field token)

variable {α : Type} {text : List Char} {fault : Fault} {error : Error} {source : String} {names : List String}
variable {statements : List Statement} {table : SymbolTable} {body : Instruction}

theorem misread_of_readSymbol (failed : readSymbol text = .error fault) : Misread fault := by
  unfold readSymbol at failed
  split at failed
  · contradiction
  · cases failed
    exact .symbol _

theorem misread_of_readField {field : Field} {ofMnemonic? : String → Option α} {token : String}
    (failed : readField field ofMnemonic? token = .error fault) : Misread fault := by
  unfold readField at failed
  split at failed
  · contradiction
  · cases failed
    exact .mnemonic field token

theorem misread_of_readMarked {field : Field} {ofMnemonic? : String → Option α} {absent : α}
    {marked : Option (List Char)}
    (failed : readMarked field (readField field ofMnemonic?) absent marked = .error fault) : Misread fault := by
  unfold readMarked at failed
  split at failed
  · contradiction
  · cases failed
    exact .mnemonic field ""
  · exact misread_of_readField failed

theorem misread_of_readFields {dest jump : Option (List Char)} {comp : List Char}
    (failed : readFields dest comp jump = .error fault) : Misread fault := by
  rcases error_of_bind failed with inDest | ⟨_, _, failed⟩
  · exact misread_of_readMarked inDest
  · rcases error_of_bind failed with inComp | ⟨_, _, failed⟩
    · exact misread_of_readField inComp
    · rcases error_of_bind failed with inJump | ⟨_, _, finished⟩
      · exact misread_of_readMarked inJump
      · cases finished

theorem misread_of_readStatement (failed : readStatement text = .error fault) : Misread fault := by
  unfold readStatement at failed
  split at failed
  · unfold readLabel at failed
    split at failed
    · exact misread_of_readSymbol (error_of_map failed)
    · cases failed
      exact .symbol _
  · have inOperand := error_of_map failed
    unfold readOperand at inOperand
    split at inOperand
    · contradiction
    · exact misread_of_readSymbol (error_of_map inOperand)
  · exact misread_of_readFields ((readCompute_eq _).symm.trans (error_of_map failed))

theorem overflow_of_encode (failed : body.encode table = .error fault) : ∃ value, fault = .addressOverflow value := by
  unfold Instruction.encode at failed
  split at failed
  · split at failed
    · cases failed
      exact ⟨_, rfl⟩
    · contradiction
  · rcases error_of_bind failed with unresolved | ⟨_, _, finished⟩
    · unfold SymbolTable.resolve at unresolved
      split at unresolved
      · contradiction
      · split at unresolved
        · cases unresolved
          exact ⟨_, rfl⟩
        · contradiction
    · cases finished
  · contradiction

theorem overflow_of_encodeAll {code : List (SourceLine × Instruction)} (failed : encodeAll code table = .error error) :
    ∃ value, error.fault = .addressOverflow value := by
  obtain ⟨⟨⟨line, body⟩, index⟩, _, state, failed⟩ := error_of_runM failed
  rcases error_of_bind failed with unencoded | ⟨_, _, finished⟩
  · exact overflow_of_encode (error_of_blame unencoded)
  · cases finished

theorem labelLines_of_reads (reads : Reads text statements) :
    (cleanedLines text).filter opensLabel = (labels statements).map fun name => (Statement.label name).text.toList := by
  unfold Reads at reads
  generalize cleanedLines text = lines at reads
  induction lines generalizing statements with
  | nil =>
      have none : statements = [] := List.map_eq_nil_iff.mp reads.symm
      rw [none]
      rfl
  | cons line lines ih =>
      cases statements with
      | nil => contradiction
      | cons statement statements =>
          obtain ⟨one, more⟩ := List.cons.inj reads
          have opens := opensLabel_of_readStatement one
          cases written_of_readStatement one with
          | label name legal =>
              rw [List.filter_cons_of_pos rfl, ih more, labels_label, List.map_cons]
              simp [Statement.text]
          | literal | symbol | compute =>
              rw [List.filter_cons_of_neg (by simp [opens, Statement.instruction?]), ih more, labels_instruction]

theorem labelLine_injective : Function.Injective fun name => (Statement.label name).text.toList := by
  intro name other same
  have texts : '(' :: (name.toList ++ [')']) = '(' :: (other.toList ++ [')']) := by simpa [Statement.text] using same
  exact String.toList_inj.mp (List.append_cancel_right (List.cons.inj texts).2)

/-- Where all labels are new, whatever stops the assembler is no label. -/
theorem fault_of_listing
    (declared : (cleanedLines source.toList).filter opensLabel =
      names.map fun name => (Statement.label name).text.toList)
    (distinct : names.Nodup) (unreserved : ∀ name ∈ names, predefined.lookup name = none)
    (failed : listing source = .error error) :
    Misread error.fault ∨ ∃ value, error.fault = .addressOverflow value := by
  rcases error_of_bind failed with unread | ⟨program, parsed, failed⟩
  · obtain ⟨line, _, failed⟩ := error_of_mapM unread
    rcases error_of_bind failed with here | ⟨_, _, finished⟩
    · exact .inl (misread_of_readStatement (error_of_blame here))
    · cases finished
  · have same : labels (statementsOf program) = names :=
      labelLine_injective.list_map ((labelLines_of_reads (reads_of_parseLines parsed)).symm.trans declared)
    have fresh : ∀ name ∈ labels (statementsOf program), SymbolTable.initial.find? name = none := by
      intro name member
      rw [find?_initial]
      exact unreserved name (same ▸ member)
    right
    rcases bindLabels_outcome 0 (same ▸ distinct) fresh with ⟨table, bound⟩ | ⟨_, _, _, _, _, _, late⟩
    · rcases error_of_bind failed with unbound | ⟨_, known, failed⟩
      · rw [bound] at unbound
        contradiction
      · rcases error_of_bind failed with unencoded | ⟨_, _, finished⟩
        · exact overflow_of_encodeAll unencoded
        · cases finished
    · rcases error_of_bind failed with unbound | ⟨_, known, _⟩
      · rw [late] at unbound
        cases unbound
        exact ⟨_, rfl⟩
      · rw [late] at known
        contradiction

end Hack.Assembly
