import Hack.Proofs.Stack.Drafting
import Hack.Proofs.Stack.Slots

namespace Hack.Stack

open Hack.Assembly Hack.Text

variable {rest : List Char} {statement : Statement} {statements : List Statement}
variable {config : Config} {commands front : List Command} {command : Command}
variable {operation : Operation} {emission : Emission} {draft : Draft}

/-- Every statement is left with something when its line is cleaned. -/
theorem cleanedLines_of_clear (clear : ∀ statement ∈ statements, '\n' ∉ statement.text.toList) :
    cleanedLines (Statement.render statements).toList =
      statements.map fun statement => cleanLine statement.text.toList := by
  rw [cleanedLines, lines_render clear, List.map_map]
  refine List.filter_eq_self.mpr fun line member => ?_
  obtain ⟨statement, _, rfl⟩ := List.mem_map.mp member
  obtain ⟨first, more, text, plain, _⟩ := exists_opening statement
  rw [Function.comp_apply, text, cleanLine_cons plain]
  rfl

/-- The rule by which the assembler counts a line. -/
theorem slots_render (clear : ∀ statement ∈ statements, '\n' ∉ statement.text.toList) :
    slots (Statement.render statements) = (code statements).length := by
  rw [slots_eq, cleanedLines_of_clear clear]
  clear clear
  induction statements with
  | nil => rfl
  | cons statement rest ih =>
      obtain ⟨first, more, text, plain, noLabel⟩ := exists_opening statement
      rw [List.map_cons, text, cleanLine_cons plain, List.countP_cons, ih]
      cases statement with
      | label name =>
          have opens : first = '(' := by simpa [Statement.instruction?] using noLabel
          simp [opens, opensLabel]
      | instruction body =>
          have stays : first ≠ '(' := by simpa [Statement.instruction?] using noLabel
          simp [stays, opensLabel]

theorem countInstructions_render (clear : ∀ statement ∈ statements, '\n' ∉ statement.text.toList) :
    countInstructions (Statement.render statements) = (code statements).length := by
  rw [countInstructions_eq_slots, slots_render clear]
  rw [lines_render clear]
  intro line member
  obtain ⟨statement, _, rfl⟩ := List.mem_map.mp member
  obtain ⟨first, rest, text, plain, _⟩ := exists_opening statement
  rw [text]
  exact not_opensApart_cons plain rest

theorem endsLine_comment (annotate : Bool) (command : Command) :
    EndsLine (comment annotate command).toList := by
  unfold comment
  split
  · exact .inr ⟨"// ".toList ++ command.text.toList, by simp⟩
  · exact .inl rfl

theorem cleanedLines_comment (annotate : Bool) (clear : command.Clear) :
    cleanedLines (comment annotate command).toList = [] := by
  unfold comment
  split
  · have line : ("// " ++ command.text ++ "\n").toList =
        ('/' :: '/' :: ' ' :: command.text.toList) ++ ['\n'] := by simp
    have oneLine : '\n' ∉ '/' :: '/' :: ' ' :: command.text.toList := by simpa using clear.text
    have nothing : cleanLine ('/' :: '/' :: ' ' :: command.text.toList) = [] := by
      rw [cleanLine, List.filter_cons_of_pos (by rfl), List.filter_cons_of_pos (by rfl), beforeComment_comment]
    rw [line, cleanedLines_line oneLine, if_pos nothing]
  · rfl

/-- The part of a text that a command has contributed, which begins where a
line begins. -/
theorem slots_piece (annotate : Bool) (clear : command.Clear) (text : String) :
    slots (comment annotate command ++ text) = slots text := by
  rw [slots_append (endsLine_comment annotate command), slots_eq, cleanedLines_comment annotate clear]
  simp

theorem endsLine_extend (ended : EndsLine draft.text.toList) :
    EndsLine (draft.extend config command).text.toList := by
  rcases extend_cases config draft command with ⟨operation, _, same⟩ | same
  · rw [same, String.toList_append, String.toList_append]
    exact ended.append ((endsLine_comment _ _).append (endsLine_render _))
  · rw [same]
    exact ended

theorem inherited_clear : Inherited fun name => '\n' ∉ name.toList := by
  refine ⟨by decide, by decide, fun name other one more => by simp [one, more], fun name clear value => ?_⟩
  rw [String.toList_append]
  intro member
  rcases List.mem_append.mp member with inName | inNumber
  · exact clear inName
  · have inSymbol := symbolChar_toString value _ inNumber
    contradiction

theorem clear_code (emission : Emission) (operation : Operation) {file : String} (oneLine : '\n' ∉ file.toList)
    (own : ∀ name, operation.name? = some name → '\n' ∉ name.toList)
    (enclosed : ∀ function, emission.enclosing = some function → '\n' ∉ function.toList) :
    ∀ statement ∈ operation.code emission file, '\n' ∉ statement.text.toList := by
  have named := inherited_clear.code emission operation oneLine own enclosed
  exact fun statement member => lineFeed_not_mem_text (named statement member)

/-- The only names in the code of a command that may hold line feeds begin with
the name of its file. -/
theorem countable_code (emission : Emission) (operation : Operation) {file : String} (countable : Countable file.toList)
    (own : ∀ name, operation.name? = some name → '\n' ∉ name.toList)
    (enclosed : ∀ function, emission.enclosing = some function → '\n' ∉ function.toList) :
    ∀ statement ∈ operation.code emission file, statement.Named fun name => Countable name.toList := by
  have digits : ∀ value : Nat, '\n' ∉ (toString value).toList := by
    intro value member
    have inSymbol := symbolChar_toString value _ member
    contradiction
  have static : ∀ index, Countable (staticSymbol file index).toList := by
    intro index
    have shown : (staticSymbol file index).toList = file.toList ++ '.' :: (toString index).toList := by simp [staticSymbol]
    rw [shown]
    exact countable.append (by decide) (by simpa using digits index)
  have returned : Countable (emission.returnLabel file).toList := by
    have shown : (emission.returnLabel file).toList =
        (emission.enclosing.getD file).toList ++ '$' :: 'r' :: 'e' :: 't' :: '.' :: (toString emission.returns).toList := by
      simp [Emission.returnLabel]
    have scope : Countable (emission.enclosing.getD file).toList := by
      cases found : emission.enclosing with
      | none => exact countable
      | some function => exact .of_clear (enclosed function found)
    rw [shown]
    exact scope.append (by decide) (by simpa using digits emission.returns)
  have qualified : ∀ name, operation.name? = some name → Countable (emission.qualify name).toList := by
    intro name named
    unfold Emission.qualify
    split
    · next function found =>
        refine .of_clear ?_
        simpa using ⟨enclosed function found, own name named⟩
    · exact .of_clear (own name named)
  refine named_code _ emission file operation (fun name member => .of_clear ?_) ?_
  · exact inherited_clear.pointers name member
  · cases operation with
    | pushConstant value | arithmetic op | ret => simp [Operation.symbols]
    | push cell | pop cell => cases cell <;> simp [Operation.symbols, static]
    | label name | goto name | ifGoto name => simpa [Operation.symbols] using qualified name rfl
    | function name locals => simpa [Operation.symbols] using Countable.of_clear (own name rfl)
    | call name arguments => simpa [Operation.symbols, returned] using Countable.of_clear (own name rfl)

theorem clear_openingCode (config : Config) : ∀ statement ∈ openingCode config, '\n' ∉ statement.text.toList := by
  have setup : ∀ statement ∈ setupCode, '\n' ∉ statement.text.toList := by decide
  have call := clear_code {} (.call "Sys.init" 0) (show '\n' ∉ "Bootstrap".toList by decide)
    (by rintro name ⟨⟩; decide) (by simp)
  unfold openingCode
  split
  · exact List.forall_mem_append.mpr ⟨setup, call⟩
  · simp

theorem returnLabel_emitted (emission : Emission) (count : Nat) (file : String) :
    Emission.returnLabel { emission with emitted := count } file = emission.returnLabel file := rfl

theorem bootstrap_eq (emission : Emission) : emission.bootstrap =
    (Statement.render (setupCode ++ callCode "Sys.init" (emission.returnLabel "Bootstrap") 0),
      ⟨emission.emitted + countInstructions (Statement.render setupCode) +
        countInstructions (Statement.render (callCode "Sys.init" (emission.returnLabel "Bootstrap") 0)),
        emission.returns + 1, emission.enclosing⟩) := by
  rw [Statement.render_append]
  simp only [Emission.bootstrap, Emission.emit, Emission.advance, Operation.code, returnLabel_emitted]
  rfl

theorem emitted_bootstrap : countInstructions (Statement.render setupCode) +
    countInstructions (Statement.render (callCode "Sys.init" (Emission.returnLabel {} "Bootstrap") 0)) =
      (code bootstrapCode).length := by
  have clear := clear_openingCode ⟨true, false⟩
  rw [openingCode, if_pos rfl, bootstrapCode, List.forall_mem_append] at clear
  rw [countInstructions_render clear.1, countInstructions_render clear.2, bootstrapCode, code_append,
    List.length_append]

theorem draft_nil (config : Config) :
    Hack.Stack.draft config [] =
      ⟨Statement.render (openingCode config),
        ⟨(code (openingCode config)).length, if config.bootstrap then 1 else 0, none⟩⟩ := by
  unfold Hack.Stack.draft Draft.opening openingCode
  cases config.bootstrap with
  | false => rfl
  | true =>
      simp only [if_true, List.foldl_nil, bootstrap_eq, Nat.zero_add, emitted_bootstrap, bootstrapCode]

theorem endsLine_draft (config : Config) (commands : List Command) :
    EndsLine (Hack.Stack.draft config commands).text.toList := by
  induction commands using List.reverseRecOn with
  | nil =>
      rw [draft_nil]
      exact endsLine_render (openingCode config)
  | append_singleton front command ih =>
      rw [draft_concat]
      exact endsLine_extend ih

/-- A draft whose counter is right and whose function can be spliced into code. -/
structure Draft.Counted (draft : Draft) : Prop where
  emitted : draft.emission.emitted = slots draft.text
  enclosing : ∀ function, draft.emission.enclosing = some function → '\n' ∉ function.toList

theorem Draft.Counted.extend (counted : draft.Counted) (ended : EndsLine draft.text.toList)
    (countable : Countable command.file.toList) (clear : command.Clear) :
    (draft.extend config command).Counted := by
  rcases extend_cases config draft command with ⟨operation, read, same⟩ | same
  · have names : ∀ name, operation.name? = some name → '\n' ∉ name.toList := by
      intro name named member
      have visible := clear.name name (name_of_operation read named) _ member
      contradiction
    have together := together_render (countable_code draft.emission operation countable names counted.enclosing)
    rw [same]
    constructor
    · rw [slots_append ended, slots_piece _ clear, ← counted.emitted, ← countInstructions_eq_slots together]
      rfl
    · intro function found
      simp only [Emission.advance] at found
      cases operation with
      | function label locals =>
          cases found
          exact names function rfl
      | _ => exact counted.enclosing function found
  · rw [same]
    exact counted

/-- The emission counter is the number of instruction slots, wherever the
translation stands. -/
theorem counted_of_countable (config : Config) (countable : ∀ command ∈ commands, Countable command.file.toList)
    (clear : ∀ command ∈ commands, command.Clear) : (Hack.Stack.draft config commands).Counted := by
  induction commands using List.reverseRecOn with
  | nil =>
      rw [draft_nil]
      exact ⟨(slots_render (clear_openingCode config)).symm, by simp⟩
  | append_singleton front command ih =>
      obtain ⟨names, last⟩ := List.forall_mem_append.mp countable
      obtain ⟨clears, lastClear⟩ := List.forall_mem_append.mp clear
      rw [draft_concat]
      exact (ih names clears).extend (endsLine_draft config front)
        (last command List.mem_cons_self) (lastClear command List.mem_cons_self)

theorem counted_draft (config : Config) (oneLine : ∀ command ∈ commands, '\n' ∉ command.file.toList)
    (clear : ∀ command ∈ commands, command.Clear) : (Hack.Stack.draft config commands).Counted :=
  counted_of_countable config (fun command member => .of_clear (oneLine command member)) clear

end Hack.Stack
