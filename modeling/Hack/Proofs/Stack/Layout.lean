import Hack.Build
import Hack.Proofs.Assembly.TwoPass
import Hack.Proofs.Stack.Counting

namespace Hack.Stack

open Hack.Assembly Hack.Text

/-- The number of the first instruction behind the code of some commands. -/
def position (config : Config) (commands : List Command) : Nat :=
  slots (draft config commands).text

variable {config : Config} {files : List SourceFile} {commands front back : List Command} {command : Command}
variable {operation : Operation} {statements : List Statement} {text : String} {entries : List Entry}

theorem exists_front (reads : Reads (draft config (front ++ back)).text.toList statements) :
    ∃ before after, statements = before ++ after ∧ Reads (draft config front).text.toList before ∧
      (code before).length = position config front := by
  obtain ⟨rest, text⟩ := exists_text_append config front back
  rw [text, String.toList_append] at reads
  obtain ⟨before, after, first, _, rfl⟩ := reads.split (endsLine_draft config front)
  exact ⟨before, after, rfl, first, (slots_of_reads first).symm⟩

theorem exists_own (clear : command.Clear) (read : command.operation = .ok operation)
    (reads : Reads (draft config (front ++ command :: back)).text.toList statements) :
    ∃ before own after, statements = before ++ own ++ after ∧
      Reads (Statement.render (operation.code (draft config front).emission command.file)).toList own ∧
      (code before).length = position config front ∧
      (code before).length + (code own).length = position config (front ++ [command]) := by
  rw [List.append_cons] at reads
  obtain ⟨most, after, rfl, upTo, count⟩ := exists_front reads
  rw [draft_concat, extend_of_operation read, String.toList_append, String.toList_append] at upTo
  obtain ⟨before, piece, first, second, rfl⟩ := upTo.split (endsLine_draft config front)
  obtain ⟨none, own, remark, third, rfl⟩ := second.split (endsLine_comment config.annotate command)
  have nothing : none = [] := by
    rw [Reads, cleanedLines_comment config.annotate clear] at remark
    exact List.map_eq_nil_iff.mp remark.symm
  subst nothing
  refine ⟨before, own, after, rfl, third, (slots_of_reads first).symm, ?_⟩
  rw [← count, List.nil_append, code_append, List.length_append]

/-- Legal code that has been assembled reads as itself: no literal in it is so
high that it would be read as another. -/
theorem reads_of_legal {own : List Statement} {words : List Word} {code : List Statement}
    (legal : ∀ statement ∈ code, statement.Legal) (reads : Reads (Statement.render code).toList own)
    (linked : Linked statements words) (inside : ∀ body ∈ Assembly.code own, body ∈ Assembly.code statements) :
    own = code := by
  have same : own = code.map Statement.bounded := reads.unique (reads_render legal)
  rw [same]
  refine bounded_eq_self statements fun body member => ?_
  rw [← same] at member
  exact linked.fits body (inside body member)

def ArithmeticOp.jump? : ArithmeticOp → Option Jump
  | .eq => some .equal
  | .gt => some .greater
  | .lt => some .less
  | _ => none

theorem code_of_jump? {op : ArithmeticOp} {jump : Jump} (compares : op.jump? = some jump) (start : Nat) :
    op.code start = comparison start jump := by
  cases op <;> cases compares <;> rfl

theorem legal_comparison (start : Nat) (jump : Jump) : ∀ statement ∈ comparison start jump, statement.Legal := by
  simp [comparison, popD, dropTop, pushD, pushComp, growStack, Statement.Legal, isSymbol, opensSymbol]

theorem instructions_comparison (start : Nat) (jump : Jump) :
    ∀ statement ∈ comparison start jump, statement.bounded.instruction?.isSome = true := by
  simp [comparison, popD, dropTop, pushD, pushComp, growStack, atName, atNumber, set, jumpIf, gotoA,
    Statement.bounded, Statement.instruction?]

theorem text_comparison (start : Nat) (jump : Jump) :
    (comparison start jump).map Statement.text =
      ["@SP", "M=M-1", "A=M", "D=M", "@SP", "M=M-1", "A=M", "D=M-D", "@" ++ toString (start + 13),
        (jumpIf .d jump).text, "D=0", "@" ++ toString (start + 14), "0;JMP", "D=-1",
        "@SP", "A=M", "M=D", "@SP", "M=M+1"] := by
  rfl

theorem sources_of_comparison {op : ArithmeticOp} {jump : Jump} (clear : command.Clear)
    (read : command.operation = .ok (.arithmetic op)) (compares : op.jump? = some jump)
    (assembled : listing (draft config (front ++ command :: back)).text = .ok entries) :
    ((entries.drop (position config front)).take 19).map Entry.source =
      (comparison (draft config front).emission.emitted jump).map Statement.text := by
  generalize start : (draft config front).emission.emitted = emitted
  have legal := legal_comparison emitted jump
  obtain ⟨rest, text⟩ := exists_text_append config (front ++ [command]) back
  rw [← List.append_cons, draft_concat, extend_of_operation read, Operation.code, start,
    code_of_jump? compares] at text
  have own : (cleanedLines (Statement.render (comparison emitted jump)).toList).filter
      (fun line => !opensLabel line) = (comparison emitted jump).map fun statement => statement.text.toList := by
    rw [cleanedLines_render legal]
    refine List.filter_eq_self.mpr fun line member => ?_
    obtain ⟨statement, inside, rfl⟩ := List.mem_map.mp member
    have instruction := instructions_comparison emitted jump statement inside
    rw [opensLabel_of_readStatement (readStatement_of_written (written_text (legal statement inside)))]
    simpa using instruction
  have sources := sources_of_listing assembled
  rw [text, String.toList_append, String.toList_append, String.toList_append, List.append_assoc,
    List.append_assoc, cleanedLines_append (endsLine_draft config front),
    cleanedLines_append (endsLine_comment config.annotate command), cleanedLines_comment config.annotate clear,
    cleanedLines_append (endsLine_render _), List.nil_append, List.filter_append, List.filter_append, own] at sources
  have count : ((cleanedLines (draft config front).text.toList).filter fun line => !opensLabel line).length =
      position config front := by
    rw [← List.countP_eq_length_filter, position, slots_eq]
  have texts : ((entries.drop (position config front)).take 19).map (fun entry => entry.source.toList) =
      (comparison emitted jump).map fun statement => statement.text.toList := by
    rw [List.map_take, List.map_drop, sources, ← count, List.drop_left]
    exact List.take_left' rfl
  refine List.map_injective_iff.mpr (fun _ _ => String.toList_inj.mp) ?_
  rw [List.map_map, List.map_map]
  exact texts

theorem words_of_comparison {op : ArithmeticOp} {jump : Jump} (clear : command.Clear)
    (read : command.operation = .ok (.arithmetic op)) (compares : op.jump? = some jump)
    (counted : (draft config front).emission.emitted = position config front)
    (assembled : listing (draft config (front ++ command :: back)).text = .ok entries) :
    (entries[position config front + 8]?.map fun entry => entry.word.toNat) = some (position config front + 13) ∧
      (entries[position config front + 11]?.map fun entry => entry.word.toNat) =
        some (position config front + 14) := by
  obtain ⟨statements, reads, linked⟩ := linked_of_listing assembled
  obtain ⟨before, own, after, rfl, ownReads, place, _⟩ := exists_own clear read reads
  rw [Operation.code, code_of_jump? compares, counted] at ownReads
  have inside : ∀ body ∈ Assembly.code own, body ∈ Assembly.code (before ++ own ++ after) := by
    intro body member
    simp [member]
  have same := reads_of_legal (legal_comparison _ jump) ownReads linked inside
  subst same
  have word : ∀ offset value, (Assembly.code (comparison (position config front) jump))[offset]? =
      some (.address (.literal value)) → (entries[position config front + offset]?.map fun entry =>
        entry.word.toNat) = some value := by
    intro offset value found
    have fits := linked.fits _ (inside _ (List.mem_of_getElem? found))
    have words := congrArg (fun list => list[position config front + offset]?) linked.words_eq
    have within : offset < (Assembly.code (comparison (position config front) jump)).length := by
      obtain ⟨bound, _⟩ := List.getElem?_eq_some_iff.mp found
      exact bound
    simp only [List.getElem?_map, code_append] at words
    rw [List.getElem?_append_left (by rw [List.length_append]; omega), List.getElem?_append_right (by omega),
      place, Nat.add_sub_cancel_left, found] at words
    have held := congrArg (Option.map BitVec.toNat) words
    rw [Option.map_map, Option.map_some, Option.map_some, toNat_word fits] at held
    exact held
  exact ⟨word 8 _ rfl, word 11 _ rfl⟩

theorem operation_of_arithmetic {op : ArithmeticOp} (kind : command.kind = .arithmetic op) :
    command.operation = .ok (.arithmetic op) := by
  rw [Command.operation, Command.meaning, kind]
  rfl

/-- The emission counter is at all times the number of instruction slots in the
text produced so far.  So the numbers that a comparison jumps to are those of
its own instructions. -/
theorem emitted_eq_slots (oneLine : ∀ file ∈ files, '\n' ∉ file.name.toList)
    (read : readFiles files = .ok commands) (config : Config) :
    (∀ count, (draft config (commands.take count)).emission.emitted =
        slots (draft config (commands.take count)).text ∧
      ∀ entries, listing (draft config (commands.take count)).text = .ok entries →
        entries.length = (draft config (commands.take count)).emission.emitted) ∧
    ∀ text entries, translate files config = .ok text → listing text = .ok entries →
      text = (draft config commands).text ∧
      ∀ index op jump, commands[index]?.map Command.kind = some (.arithmetic op) → op.jump? = some jump →
        ∃ start, start = (draft config (commands.take index)).emission.emitted ∧
          ((entries.drop start).take 19).map Entry.source = (comparison start jump).map Statement.text ∧
          entries[start + 13]?.map Entry.source = some "D=-1" ∧
          ((entries.drop (start + 14)).take 5).map Entry.source = ["@SP", "A=M", "M=D", "@SP", "M=M+1"] ∧
          (entries[start + 8]?.map fun entry => entry.word.toNat) = some (start + 13) ∧
          (entries[start + 11]?.map fun entry => entry.word.toNat) = some (start + 14) := by
  have whole := clear_of_readFiles read
  have names : ∀ command ∈ commands, '\n' ∉ command.file.toList := by
    intro command member
    obtain ⟨⟨file, inFiles, same⟩, _⟩ := whole command member
    rw [same]
    exact oneLine file inFiles
  have counted : ∀ count, (draft config (commands.take count)).emission.emitted =
      slots (draft config (commands.take count)).text := by
    intro count
    exact (counted_draft config (fun command member => names command (List.mem_of_mem_take member))
      fun command member => (whole command (List.mem_of_mem_take member)).2).emitted
  refine ⟨fun count => ⟨counted count, fun entries assembled => ?_⟩, ?_⟩
  · rw [length_of_listing assembled, counted count]
  · intro text entries translated assembled
    obtain ⟨others, again, same, _⟩ := draft_of_translate translated
    have unique : others = commands := Except.ok.inj (again.symm.trans read)
    subst unique
    refine ⟨same.symm, fun index op jump kind compares => ?_⟩
    obtain ⟨command, found, kind⟩ := Option.map_eq_some_iff.mp kind
    obtain ⟨bound, rfl⟩ := List.getElem?_eq_some_iff.mp found
    have split : others = others.take index ++ others[index] :: others.drop (index + 1) := by
      rw [← List.drop_eq_getElem_cons bound, List.take_append_drop]
    have clear := (whole _ (List.getElem_mem bound)).2
    have operation := operation_of_arithmetic kind
    rw [← same, split] at assembled
    have sources := sources_of_comparison clear operation compares assembled
    obtain ⟨trueWord, falseWord⟩ := words_of_comparison clear operation compares (counted index) assembled
    rw [← show _ = position config (others.take index) from counted index] at sources trueWord falseWord
    refine ⟨_, rfl, sources, ?_, ?_, trueWord, falseWord⟩
    · have line := congrArg (fun list => list[13]?) sources
      simpa [List.getElem?_take, List.getElem?_drop, text_comparison] using line
    · have lines := congrArg (List.drop 14) sources
      rw [← List.map_drop, List.drop_take, List.drop_drop] at lines
      simpa [text_comparison] using lines

/-- The two comparisons of this program stand at different places and have
different targets. -/
theorem emitted_eq_slots_two_comparisons :
    ∃ commands, readFiles [⟨"Main", "push constant 1\npush constant 2\nlt // less\npush constant 0\neq"⟩] =
        .ok commands ∧
      (draft ⟨false, true⟩ (commands.take 2)).emission.emitted = 14 ∧
      (draft ⟨false, true⟩ (commands.take 4)).emission.emitted = 40 ∧
      ∀ count, (draft ⟨false, true⟩ (commands.take count)).emission.emitted =
        slots (draft ⟨false, true⟩ (commands.take count)).text := by
  have read : readFiles
      [⟨"Main", "push constant 1\npush constant 2\nlt // less\npush constant 0\neq"⟩] = .ok
        [⟨.push, some "constant", some 1, "Main", 1, "push constant 1"⟩,
          ⟨.push, some "constant", some 2, "Main", 2, "push constant 2"⟩,
          ⟨.arithmetic .lt, none, none, "Main", 3, "lt"⟩,
          ⟨.push, some "constant", some 0, "Main", 4, "push constant 0"⟩,
          ⟨.arithmetic .eq, none, none, "Main", 5, "eq"⟩] :=
    eq_ok_of_toOption (by decide +kernel)
  obtain ⟨counted, _⟩ := emitted_eq_slots (by decide) read ⟨false, true⟩
  exact ⟨_, read, by decide +kernel, by decide +kernel, fun count => (counted count).1⟩

end Hack.Stack
