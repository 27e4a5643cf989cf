import Hack.Proofs.Assembly.Linking
import Hack.Proofs.Assembly.Naming
import Hack.Proofs.Stack.Building

namespace Hack.Stack

open Hack.Assembly Hack.Text

variable {files : List SourceFile} {config : Config} {built : Built files config}
variable {index other number otherNumber offset otherOffset : Nat} {file otherFile : String}
variable {operation otherOperation : Operation}

/-- A name as the assembler sees it. -/
def spelled (name : String) : String :=
  String.ofList (name.toList.filter fun c => !isBlank c)

/-- The static variable of an operation, and which instruction of its code loads
the address. -/
def Operation.static? : Operation → Option (Nat × Nat)
  | .push (.static number) => some (number, 0)
  | .pop (.static number) => some (number, 4)
  | _ => none

theorem spelled_append (name other : String) : spelled (name ++ other) = spelled name ++ spelled other := by
  rw [spelled, String.toList_append, List.filter_append, String.ofList_append]
  rfl

theorem not_mem_toString {c : Char} (noDigit : c.isDigit = false) (value : Nat) : c ∉ (toString value).toList := by
  intro member
  have digit := isDigit_of_natural? (natural?_toString value) c member
  rw [noDigit] at digit
  contradiction

theorem spelled_toString (value : Nat) : spelled (toString value) = toString value := by
  have visible : ∀ c ∈ (toString value).toList, (!isBlank c) = true := by
    intro c member
    have plain := isPlain_of_symbolChar (symbolChar_toString value c member)
    exact (Bool.and_eq_true_iff.mp plain).1
  rw [spelled, List.filter_eq_self.mpr visible, String.ofList_toList]

theorem toList_staticSymbol (file : String) (number : Nat) :
    (staticSymbol file number).toList = file.toList ++ '.' :: (toString number).toList := by
  simp [staticSymbol]

theorem spelled_static (file : String) (number : Nat) :
    spelled (staticSymbol file number) = staticSymbol (spelled file) number := by
  rw [staticSymbol, spelled_append, spelled_append, spelled_toString, show spelled "." = "." by decide]
  rfl

/-- The last dot tells where the name of the file ends. -/
theorem staticSymbol_injective (same : staticSymbol file number = staticSymbol otherFile otherNumber) :
    file = otherFile ∧ number = otherNumber := by
  have backwards : ∀ (file : String) (number : Nat),
      cutAt? '.' (staticSymbol file number).toList.reverse =
        some ((toString number).toList.reverse, file.toList.reverse) := by
    intro file number
    have text : (staticSymbol file number).toList.reverse =
        (toString number).toList.reverse ++ '.' :: file.toList.reverse := by
      rw [toList_staticSymbol, List.reverse_append, List.reverse_cons, List.append_assoc]
      rfl
    have noDot : '.' ∉ (toString number).toList.reverse := by
      rw [List.mem_reverse]
      exact not_mem_toString (by decide) number
    rw [text, cutAt?_append noDot]
  have cuts := backwards file number
  rw [same, backwards otherFile otherNumber] at cuts
  obtain ⟨numbers, names⟩ := Prod.mk.inj (Option.some.inj cuts)
  exact ⟨String.toList_inj.mp (List.reverse_inj.mp names).symm,
    toString_injective (String.toList_inj.mp (List.reverse_inj.mp numbers).symm)⟩

namespace Built

/-- The names of the files stay different when blanks are taken out, and nothing
else is taken out of them; and no label has the name of a variable. -/
structure Separate (built : Built files config) : Prop where
  oneLine : ∀ file ∈ files, '\n' ∉ file.name.toList
  uncommented : ∀ file ∈ files, beforeComment (spelled file.name).toList = (spelled file.name).toList
  apart : ∀ file ∈ files, ∀ other ∈ files, spelled file.name = spelled other.name → file.name = other.name
  free : ∀ {index file operation number offset}, Means built.commands index file operation →
    operation.static? = some (number, offset) → .label (spelled (staticSymbol file number)) ∉ built.statements

variable {statements : List Statement}

theorem reads_static {rest : List Statement} (oneLine : '\n' ∉ file.toList)
    (uncommented : beforeComment (spelled file).toList = (spelled file).toList)
    (reads : Reads (Statement.render (atName (staticSymbol file number) :: rest)).toList statements) :
    ∃ others, statements = atName (spelled (staticSymbol file number)) :: others := by
  have text : (Statement.render (atName (staticSymbol file number) :: rest)).toList =
      '@' :: ((staticSymbol file number).toList ++ '\n' :: (Statement.render rest).toList) := by
    simp [atName, Statement.text, Instruction.text, Operand.text]
  have clear : '\n' ∉ (staticSymbol file number).toList := by
    rw [toList_staticSymbol, List.mem_append, List.mem_cons]
    rintro (inFile | isDot | inNumber)
    · exact oneLine inFile
    · contradiction
    · exact not_mem_toString (by decide) number inNumber
  have cleaned : cleanLine (staticSymbol file number).toList = (spelled (staticSymbol file number)).toList := by
    have blanks : (staticSymbol file number).toList.filter (fun c => !isBlank c) =
        (spelled (staticSymbol file number)).toList := by rw [spelled, String.toList_ofList]
    have noSlash : '/' ∉ '.' :: (toString number).toList := by
      rw [List.mem_cons]
      rintro (isDot | inNumber)
      · contradiction
      · exact not_mem_toString (by decide) number inNumber
    -- The blanks go before the comment is looked for, so only the name can hold one.
    rw [cleanLine, blanks, spelled_static, toList_staticSymbol]
    exact beforeComment_append uncommented noSlash
  rw [text] at reads
  obtain ⟨statement, others, rfl, read, _⟩ := reads.opening (by decide) clear
  rw [cleaned] at read
  have dot : '.' ∈ (spelled (staticSymbol file number)).toList := by
    rw [spelled_static]
    simp [staticSymbol]
  refine ⟨others, ?_⟩
  rw [symbol_of_readStatement dot read, String.ofList_toList]
  rfl

theorem exists_source (means : Means built.commands index file operation) : ∃ source ∈ files, file = source.name := by
  obtain ⟨command, found, _, rfl⟩ := means
  exact (clear_of_readFiles built.read command (List.mem_of_getElem? found)).1

theorem stands_static (separate : built.Separate) (means : Means built.commands index file operation)
    (refers : operation.static? = some (number, offset)) :
    ∃ rest, Stands built.statements (built.start index + offset)
      (atName (spelled (staticSymbol file number)) :: rest) := by
  obtain ⟨source, member, named⟩ := exists_source means
  have oneLine := separate.oneLine source member
  have uncommented := separate.uncommented source member
  rw [← named] at oneLine uncommented
  obtain ⟨own, stands, reads, _⟩ := stands_own means
  unfold Operation.static? at refers
  split at refers
  · cases refers
    obtain ⟨others, rfl⟩ := reads_static oneLine uncommented reads
    exact ⟨others, stands⟩
  · cases refers
    obtain ⟨front, back, frontReads, backReads, rfl⟩ := reads.split_render
    obtain ⟨others, rfl⟩ := reads_static oneLine uncommented backReads
    have legal : ∀ statement ∈ popD, statement.Legal := by
      simp [popD, dropTop, Statement.Legal, isSymbol, opensSymbol]
    have same := reads_of_legal legal frontReads built.linked stands.left.mem
    subst same
    exact ⟨others, stands.right⟩
  · contradiction

theorem exists_cell (separate : built.Separate) (means : Means built.commands index file operation)
    (refers : operation.static? = some (number, offset)) :
    spelled (staticSymbol file number) ∈ unbound built.statements ∧
      (code built.statements)[built.start index + offset]? =
        some (.address (.symbol (spelled (staticSymbol file number)))) ∧
      ∃ cell : Word, built.program[built.start index + offset]? = some cell ∧
        cell.toNat = variableCell (unbound built.statements) (spelled (staticSymbol file number)) := by
  obtain ⟨rest, stands⟩ := stands_static separate means refers
  have free := separate.free means refers
  generalize place : built.start index + offset = position at stands
  generalize symbol : spelled (staticSymbol file number) = name at stands free
  have dot : '.' ∈ name.toList := by
    rw [← symbol, spelled_static, toList_staticSymbol]
    simp
  have unfixed : fixedAddress? built.statements name = none := by
    rw [fixedAddress?, not_predefined_of_mark (show '.' ∈ ['.', '$'] by decide) dot,
      labelPosition?_eq_none_iff.mpr free]
    rfl
  have used : .address (.symbol name) ∈ code built.statements := stands.uses List.mem_cons_self
  refine ⟨?_, ?_, _, fetch_of_stands built.linked stands, ?_⟩
  · rw [unbound_eq_variableUses]
    refine List.mem_filter.mpr ⟨List.mem_filterMap.mpr ⟨_, used, rfl⟩, ?_⟩
    rw [unfixed]
    rfl
  · obtain ⟨before, after, whole, rfl⟩ := stands
    rw [whole, code_append, code_append, List.append_assoc, List.getElem?_append_right (Nat.le_refl _), Nat.sub_self]
    rfl
  · have value := toNat_word (built.linked.fits _ used)
    rw [value, unbound_eq_variableUses]
    change addressOf built.statements name = _
    rw [addressOf, unfixed]
    rfl

/-- Two references to static variables load the same cell exactly when they are
references to the same variable of the same file. -/
theorem statics_share_iff (separate : built.Separate)
    (one : Means built.commands index file operation) (refers : operation.static? = some (number, offset))
    (another : Means built.commands other otherFile otherOperation)
    (otherRefers : otherOperation.static? = some (otherNumber, otherOffset)) :
    ∃ cell otherCell : Word,
      (code built.statements)[built.start index + offset]? =
          some (.address (.symbol (spelled (staticSymbol file number)))) ∧
        built.program[built.start index + offset]? = some cell ∧
        (code built.statements)[built.start other + otherOffset]? =
          some (.address (.symbol (spelled (staticSymbol otherFile otherNumber)))) ∧
        built.program[built.start other + otherOffset]? = some otherCell ∧
        (cell = otherCell ↔ file = otherFile ∧ number = otherNumber) := by
  obtain ⟨used, loads, cell, held, value⟩ := exists_cell separate one refers
  obtain ⟨otherUsed, otherLoads, otherCell, otherHeld, otherValue⟩ := exists_cell separate another otherRefers
  refine ⟨cell, otherCell, loads, held, otherLoads, otherHeld, fun same => ?_, ?_⟩
  · have cells : variableCell (unbound built.statements) (spelled (staticSymbol file number)) =
        variableCell (unbound built.statements) (spelled (staticSymbol otherFile otherNumber)) := by
      rw [← value, ← otherValue, same]
    have symbols := variableCell_injective used otherUsed cells
    rw [spelled_static, spelled_static] at symbols
    obtain ⟨names, numbers⟩ := staticSymbol_injective symbols
    obtain ⟨source, member, rfl⟩ := exists_source one
    obtain ⟨otherSource, otherMember, rfl⟩ := exists_source another
    exact ⟨separate.apart source member otherSource otherMember names, numbers⟩
  · rintro ⟨rfl, rfl⟩
    exact BitVec.eq_of_toNat_eq (value.trans otherValue.symm)

end Built

def sharing (first second : String) : List SourceFile :=
  [⟨first, "push static 0"⟩, ⟨second, "push static 0"⟩]

/-- Files may have different names and the same variables. -/
theorem spaced_names_share : ∃ built : Built (sharing "A B" "AB") ⟨false, false⟩,
    ((sharing "A B" "AB").map SourceFile.name).Nodup ∧ labels built.statements = [] ∧
      Means built.commands 0 "A B" (.push (.static 0)) ∧ Means built.commands 1 "AB" (.push (.static 0)) ∧
      built.program[built.start 0]? = some 16 ∧ built.program[built.start 1]? = some 16 := by
  have succeeds : (build (sharing "A B" "AB") ⟨false, false⟩).toOption.isSome = true := by decide +kernel
  obtain ⟨binary, succeeded⟩ := exists_ok_of_isSome succeeds
  obtain ⟨built, _⟩ := exists_built succeeded
  have source : (readFiles (sharing "A B" "AB")).toOption.map (fun commands =>
      (operationsOf commands, position ⟨false, false⟩ (commands.take 0), position ⟨false, false⟩ (commands.take 1))) =
        some ([some ("A B", .push (.static 0)), some ("AB", .push (.static 0))], 0, 7) := by decide +kernel
  have result : (translate (sharing "A B" "AB") ⟨false, false⟩).toOption.bind (fun text =>
      (listing text).toOption.map fun entries =>
        (labels (statementsIn text), (entries.map Entry.word)[0]?, (entries.map Entry.word)[7]?)) =
          some ([], some 16, some 16) := by decide +kernel
  rw [built.read] at source
  rw [built.translated] at result
  change (listing built.text).toOption.map _ = _ at result
  rw [built.assembled] at result
  have source := Option.some.inj source
  have result := Option.some.inj result
  simp only [Prod.mk.injEq] at source result
  obtain ⟨table, first, second⟩ := source
  obtain ⟨unlabelled, one, two⟩ := result
  refine ⟨built, by decide, unlabelled, means_iff.mpr (by rw [table]; rfl), means_iff.mpr (by rw [table]; rfl), ?_, ?_⟩
  · rw [Built.start, first, Built.program, List.getElem?_toArray]
    exact one
  · rw [Built.start, second, Built.program, List.getElem?_toArray]
    exact two

theorem statics_share_iff_apart : ∃ built : Built (sharing "A" "B") ⟨false, false⟩, built.Separate ∧
    ∃ cell other, built.program[built.start 0]? = some cell ∧ built.program[built.start 1]? = some other ∧
      cell ≠ other := by
  have succeeds : (build (sharing "A" "B") ⟨false, false⟩).toOption.isSome = true := by decide +kernel
  obtain ⟨binary, succeeded⟩ := exists_ok_of_isSome succeeds
  obtain ⟨built, _⟩ := exists_built succeeded
  have source : (readFiles (sharing "A" "B")).toOption.map operationsOf =
      some [some ("A", .push (.static 0)), some ("B", .push (.static 0))] := by decide +kernel
  have result : (translate (sharing "A" "B") ⟨false, false⟩).toOption.map (fun text => labels (statementsIn text)) =
      some [] := by decide +kernel
  rw [built.read] at source
  rw [built.translated] at result
  have table := Option.some.inj source
  have unlabelled : labels built.statements = [] := Option.some.inj result
  have separate : built.Separate := by
    refine ⟨by decide, by decide, by decide, fun _ _ => ?_⟩
    rw [← mem_labels, unlabelled]
    exact List.not_mem_nil
  have one : Means built.commands 0 "A" (.push (.static 0)) := means_iff.mpr (by rw [table]; rfl)
  have two : Means built.commands 1 "B" (.push (.static 0)) := means_iff.mpr (by rw [table]; rfl)
  obtain ⟨cell, other, _, held, _, otherHeld, share⟩ := Built.statics_share_iff separate one rfl two rfl
  exact ⟨built, separate, cell, other, held, otherHeld, fun same => absurd (share.mp same).1 (by decide)⟩

end Hack.Stack
