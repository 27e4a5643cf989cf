import Hack.Proofs.Assembly.Faults
import Hack.Proofs.Stack.Buildable

namespace Hack.Stack

/-! Labels of a translation that are taken.

A translation makes up labels in two ways only: a function is a label of its
own, and everything inside it, its labels and the return labels of its calls,
is put behind its name and a mark.  Without marks in the names of a program two
labels can only be the same when a label of a function is named like the return
label of a call in it.
-/

open Hack.Assembly Hack.Text

variable {config : Config} {files : List SourceFile} {commands : List Command} {text : String} {after : Emission}
variable {index other : Nat} {file otherFile name otherName function : String} {operation otherOperation : Operation}

/-- What a label is made from. -/
inductive Origin where
  | function (name : String)
  | inside (function name : String)

namespace Origin

def label : Origin → String
  | .function name => name
  | .inside function name => function ++ "$" ++ name

def Unmarked : Origin → Prop
  | .function name | .inside name _ => '$' ∉ name.toList

/-- The first mark tells where the name of the function ends. -/
theorem cutAt?_label (function name : String) (unmarked : '$' ∉ function.toList) :
    cutAt? '$' (Origin.inside function name).label.toList = some (function.toList, name.toList) := by
  have text : (Origin.inside function name).label.toList = function.toList ++ '$' :: name.toList := by simp [label]
  rw [text, cutAt?_append unmarked]

theorem label_injective {one another : Origin} (unmarked : one.Unmarked) (otherUnmarked : another.Unmarked)
    (same : one.label = another.label) : one = another := by
  have cuts : cutAt? '$' one.label.toList = cutAt? '$' another.label.toList := by rw [same]
  cases one with
  | function name =>
      cases another with
      | function other => rw [show name = other from same]
      | inside function other =>
          rw [cutAt?_label function other otherUnmarked, label, cutAt?_absent unmarked] at cuts
          contradiction
  | inside function name =>
      cases another with
      | function other =>
          rw [cutAt?_label function name unmarked, label, cutAt?_absent otherUnmarked] at cuts
          contradiction
      | inside otherFunction other =>
          rw [cutAt?_label function name unmarked, cutAt?_label otherFunction other otherUnmarked] at cuts
          obtain ⟨functions, names⟩ := Prod.mk.inj (Option.some.inj cuts)
          rw [String.toList_inj.mp functions, String.toList_inj.mp names]

end Origin

/-- Names of programs that translations can put marks behind. -/
structure Unmarked (name : String) : Prop where
  symbol : isSymbol name.toList = true
  unmarked : '$' ∉ name.toList

/-- Programs that stay clear of everything that could make two of their labels
the same, but for the return labels. -/
structure Tidy (files : List SourceFile) (commands : List Command) : Prop where
  files : ∀ file ∈ files, Unmarked file.name
  behind : ∀ {index file operation}, Means commands index file operation →
    (∃ name locals, operation = .function name locals) ∨
      ∃ earlier < index, ∃ name locals, Means commands earlier file (.function name locals)
  functions : ∀ {index file name locals}, Means commands index file (.function name locals) →
    Unmarked name ∧ predefined.lookup name = none
  labels : ∀ {index file name}, Means commands index file (.label name) → Unmarked name
  functionOnce : ∀ {index other file otherFile name locals otherLocals},
    Means commands index file (.function name locals) →
      Means commands other otherFile (.function name otherLocals) → index = other
  labelOnce : ∀ {index other file otherFile name}, Means commands index file (.label name) →
    Means commands other otherFile (.label name) → enclosing commands index = enclosing commands other →
      index = other

def Operation.isCall : Operation → Bool
  | .call _ _ => true
  | _ => false

def Command.calls (command : Command) : Bool :=
  match command.operation with
  | .ok operation => operation.isCall
  | .error _ => false

/-- The number in the return label of a call: calls are counted through the
whole program, with the one that starts it. -/
def returnNumber (config : Config) (commands : List Command) (index : Nat) : Nat :=
  (if config.bootstrap then 1 else 0) + (commands.take index).countP Command.calls

def returnName (number : Nat) : String :=
  "ret." ++ toString number

/-- A function calls something with this return label. -/
inductive ReturnsTo (config : Config) (commands : List Command) : String → String → Prop where
  | bootstrap (on : config.bootstrap = true) : ReturnsTo config commands "Bootstrap" (returnName 0)
  | call {index : Nat} {file callee function : String} {arguments : Nat}
      (means : Means commands index file (.call callee arguments))
      (inside : enclosing commands index = some function) :
      ReturnsTo config commands function (returnName (returnNumber config commands index))

/-- No label of a function has the name of a return label. -/
def Apart (config : Config) (commands : List Command) : Prop :=
  ∀ ⦃index file function name⦄, Means commands index file (.label name) →
    enclosing commands index = some function → ¬ ReturnsTo config commands function name

theorem returns_advance (emission : Emission) (operation : Operation) (code : String) :
    (emission.advance operation code).returns = emission.returns + if operation.isCall then 1 else 0 := by
  cases operation <;> rfl

theorem returns_draft (config : Config) (commands : List Command) :
    (draft config commands).emission.returns = (if config.bootstrap then 1 else 0) + commands.countP Command.calls := by
  induction commands using List.reverseRecOn with
  | nil => rw [draft_nil, List.countP_nil, Nat.add_zero]
  | append_singleton front command ih =>
      rw [draft_concat, List.countP_append, List.countP_singleton, ← Nat.add_assoc, ← ih, Command.calls]
      cases read : command.operation with
      | error fault => rw [extend_of_error read, if_neg (by simp), Nat.add_zero]
      | ok operation => rw [extend_of_operation read, returns_advance]

theorem returnName_injective {value more : Nat} (same : returnName value = returnName more) : value = more :=
  toString_injective ((String.append_right_inj "ret.").mp same)

theorem symbolChar_returnName (number : Nat) :
    ∀ c ∈ (returnName number).toList, (opensSymbol c || c.isDigit) = true := by
  have front : ("ret.".toList.all fun c => opensSymbol c || c.isDigit) = true := by decide
  rw [returnName, String.toList_append]
  exact List.forall_mem_append.mpr ⟨List.all_eq_true.mp front, symbolChar_toString number⟩

theorem returnNumber_lt {arguments : Nat} (config : Config) (before : index < other)
    (means : Means commands index file (.call name arguments)) :
    returnNumber config commands index < returnNumber config commands other := by
  obtain ⟨command, found, read, _⟩ := means
  obtain ⟨bound, rfl⟩ := List.getElem?_eq_some_iff.mp found
  have calls : Command.calls commands[index] = true := by rw [Command.calls, read]; rfl
  have next : (commands.take (index + 1)).countP Command.calls = (commands.take index).countP Command.calls + 1 := by
    rw [List.take_succ_eq_append_getElem bound, List.countP_append, List.countP_singleton, if_pos calls]
  have more := (List.take_sublist_take_left (l := commands) (Nat.succ_le_of_lt before)).countP_le (p := Command.calls)
  rw [Nat.succ_eq_add_one, next] at more
  rw [returnNumber, returnNumber]
  omega

theorem returnNumber_injective {arguments otherArguments : Nat}
    (one : Means commands index file (.call name arguments))
    (another : Means commands other otherFile (.call otherName otherArguments))
    (same : returnNumber config commands index = returnNumber config commands other) : index = other := by
  rcases Nat.lt_trichotomy index other with before | equal | behind
  · have less := returnNumber_lt config before one
    omega
  · exact equal
  · have less := returnNumber_lt config behind another
    omega

theorem Means.unique (one : Means commands index file operation)
    (another : Means commands index otherFile otherOperation) : operation = otherOperation := by
  have same := (means_iff.mp one).symm.trans (means_iff.mp another)
  exact (Prod.mk.inj (Option.some.inj (Option.some.inj same))).2

/-- What the label of a command is made from. -/
inductive Declares (config : Config) (commands : List Command) (index : Nat) : Origin → Prop where
  | function {file name : String} {locals : Nat} (means : Means commands index file (.function name locals)) :
      Declares config commands index (.function name)
  | label {file function name : String} (means : Means commands index file (.label name))
      (inside : enclosing commands index = some function) : Declares config commands index (.inside function name)
  | call {file callee function : String} {arguments : Nat}
      (means : Means commands index file (.call callee arguments))
      (inside : enclosing commands index = some function) :
      Declares config commands index (.inside function (returnName (returnNumber config commands index)))

/-- The return label of the call that starts the program is not declared by a command. -/
theorem Apart.bootstrap (apart : Apart config commands) (on : config.bootstrap = true) :
    ¬ Declares config commands index (.inside "Bootstrap" (returnName 0)) := by
  intro declares
  generalize same : Origin.inside "Bootstrap" (returnName 0) = origin at declares
  cases declares with
  | function => contradiction
  | label means inside =>
      obtain ⟨rfl, rfl⟩ := Origin.inside.inj same
      exact apart means inside (.bootstrap on)
  | call means inside =>
      have zero : 0 = returnNumber config commands index := returnName_injective (Origin.inside.inj same).2
      rw [returnNumber, if_pos on] at zero
      omega

theorem isSymbol_inside (legal : isSymbol function.toList = true)
    (chars : ∀ c ∈ name.toList, (opensSymbol c || c.isDigit) = true) :
    isSymbol (Origin.inside function name).label.toList = true := by
  have mark : ("$".toList.all fun c => opensSymbol c || c.isDigit) = true := by decide
  exact isSymbol_append (isSymbol_append legal (List.all_eq_true.mp mark)) chars

theorem qualify_inside (config : Config) (inside : enclosing commands index = some function) :
    (draft config (commands.take index)).emission.qualify name = (Origin.inside function name).label := by
  have scope := (enclosing_draft config (commands.take index)).trans inside
  rw [Emission.qualify, scope]
  rfl

theorem returnLabel_inside (config : Config) (inside : enclosing commands index = some function) :
    (draft config (commands.take index)).emission.returnLabel file =
      (Origin.inside function (returnName (returnNumber config commands index))).label := by
  have scope := (enclosing_draft config (commands.take index)).trans inside
  have number : (draft config (commands.take index)).emission.returns = returnNumber config commands index :=
    returns_draft config (commands.take index)
  rw [Emission.returnLabel, scope, number, Option.getD_some, Origin.label, returnName]
  simp [← String.toList_inj]

theorem returnLabel_bootstrap :
    Emission.returnLabel {} "Bootstrap" = (Origin.inside "Bootstrap" (returnName 0)).label := by decide

theorem nodup_declared (config : Config) (commands : List Command) (index : Nat) :
    (contribution config commands Operation.declares index).Nodup := by
  rcases contribution_cases config commands Operation.declares index with none | ⟨file, operation, _, own⟩
  · rw [none]
    exact .nil
  · rw [own]
    exact nodup_declares _ file operation

namespace Tidy

variable (tidy : Tidy files commands) {origin : Origin}

include tidy

theorem exists_enclosing (means : Means commands index file operation)
    (inner : ∀ name locals, operation ≠ .function name locals) :
    ∃ function, enclosing commands index = some function := by
  rcases tidy.behind means with ⟨name, locals, same⟩ | ⟨earlier, before, name, locals, begins⟩
  · exact absurd same (inner name locals)
  · obtain ⟨command, found, read, _⟩ := begins
    have member : command ∈ commands.take index := by
      refine List.mem_of_getElem? (i := earlier) ?_
      rw [List.getElem?_take_of_lt before, found]
    have opened : name ∈ (commands.take index).filterMap Command.opens? :=
      List.mem_filterMap.mpr ⟨command, member, by rw [Command.opens?, read]⟩
    exact Option.isSome_iff_exists.mp (List.getLast?_isSome.mpr (List.ne_nil_of_mem opened))

theorem enclosing_unmarked (inside : enclosing commands index = some function) : Unmarked function := by
  obtain ⟨_, _, _, means⟩ := exists_begins inside
  exact (tidy.functions means).1

theorem mem_declared_iff (config : Config) {item : String} :
    item ∈ contribution config commands Operation.declares index ↔
      ∃ origin, Declares config commands index origin ∧ item = origin.label := by
  constructor
  · intro member
    obtain ⟨file, operation, means, member⟩ := means_of_mem_contribution member
    cases operation with
    | function name locals =>
        exact ⟨_, .function means, List.mem_singleton.mp member⟩
    | label name =>
        obtain ⟨function, inside⟩ := tidy.exists_enclosing means (by simp)
        refine ⟨_, .label means inside, ?_⟩
        rw [List.mem_singleton.mp member, qualify_inside config inside]
    | call callee arguments =>
        obtain ⟨function, inside⟩ := tidy.exists_enclosing means (by simp)
        refine ⟨_, .call means inside, ?_⟩
        rw [List.mem_singleton.mp member, returnLabel_inside config inside]
    | _ => contradiction
  · rintro ⟨origin, declares, rfl⟩
    cases declares with
    | function means =>
        rw [contribution_of_means means]
        exact List.mem_singleton.mpr rfl
    | label means inside =>
        rw [contribution_of_means means, ← qualify_inside config inside]
        exact List.mem_singleton.mpr rfl
    | call means inside =>
        rw [contribution_of_means means, ← returnLabel_inside config inside]
        exact List.mem_singleton.mpr rfl

theorem unmarked_of_declares (declares : Declares config commands index origin) : origin.Unmarked := by
  cases declares with
  | function means => exact (tidy.functions means).1.unmarked
  | label means inside | call means inside => exact (tidy.enclosing_unmarked inside).unmarked

theorem index_unique (apart : Apart config commands) (one : Declares config commands index origin)
    (two : Declares config commands other origin) : index = other := by
  -- Labels and calls meet only where a label is named like a return label.
  generalize same : origin = another at two
  cases one with
  | function means =>
      cases two with
      | function otherMeans =>
          cases same
          exact tidy.functionOnce means otherMeans
      | label | call => contradiction
  | label means inside =>
      cases two with
      | function => contradiction
      | label otherMeans otherInside =>
          cases same
          exact tidy.labelOnce means otherMeans (inside.trans otherInside.symm)
      | call otherMeans otherInside =>
          obtain ⟨rfl, rfl⟩ := Origin.inside.inj same
          exact absurd (.call otherMeans otherInside) (apart means inside)
  | call means inside =>
      cases two with
      | function => contradiction
      | label otherMeans otherInside =>
          obtain ⟨rfl, rfl⟩ := Origin.inside.inj same
          exact absurd (.call means inside) (apart otherMeans otherInside)
      | call otherMeans otherInside =>
          exact returnNumber_injective means otherMeans (returnName_injective (Origin.inside.inj same).2)

theorem apart_of_nodup (distinct : (declarations config commands).Nodup) : Apart config commands := by
  intro index file function name means inside returns
  rw [declarations, List.nodup_append', nodup_contributions_iff, List.disjoint_left] at distinct
  obtain ⟨_, ⟨_, unique⟩, new⟩ := distinct
  have label := (tidy.mem_declared_iff config).mpr ⟨_, .label means inside, rfl⟩
  cases returns with
  | bootstrap on =>
      refine new ?_ (List.mem_flatMap.mpr ⟨index, mem_range_of_contribution label, label⟩)
      rw [if_pos on, returnLabel_bootstrap]
      exact List.mem_cons_self
  | call otherMeans otherInside =>
      have same := unique _ _ _ label ((tidy.mem_declared_iff config).mpr ⟨_, .call otherMeans otherInside, rfl⟩)
      subst same
      exact absurd (means.unique otherMeans) (by simp)

theorem nodup_of_apart (apart : Apart config commands) : (declarations config commands).Nodup := by
  rw [declarations, List.nodup_append', nodup_contributions_iff, List.disjoint_left]
  refine ⟨by split <;> simp, ⟨nodup_declared config commands, fun index other item one two => ?_⟩,
    fun item opening member => ?_⟩
  · obtain ⟨origin, declares, rfl⟩ := (tidy.mem_declared_iff config).mp one
    obtain ⟨another, declaresOther, same⟩ := (tidy.mem_declared_iff config).mp two
    have origins := Origin.label_injective (tidy.unmarked_of_declares declares)
      (tidy.unmarked_of_declares declaresOther) same
    subst origins
    exact tidy.index_unique apart declares declaresOther
  · obtain ⟨index, _, inside⟩ := List.mem_flatMap.mp member
    obtain ⟨origin, declares, rfl⟩ := (tidy.mem_declared_iff config).mp inside
    split at opening
    · next on =>
        rw [List.mem_singleton, returnLabel_bootstrap] at opening
        have unmarked : (Origin.inside "Bootstrap" (returnName 0)).Unmarked := show '$' ∉ "Bootstrap".toList by decide
        have origins := Origin.label_injective (tidy.unmarked_of_declares declares) unmarked opening
        subst origins
        exact apart.bootstrap on declares
    · contradiction

theorem nodup_declarations_iff : (declarations config commands).Nodup ↔ Apart config commands :=
  ⟨tidy.apart_of_nodup, tidy.nodup_of_apart⟩

theorem mem_declarations {label : String} (member : label ∈ declarations config commands) :
    label = "Bootstrap$ret.0" ∨ ∃ index origin, Declares config commands index origin ∧ label = origin.label := by
  rcases List.mem_append.mp member with opening | inside
  · split at opening
    · exact .inl (List.mem_singleton.mp opening)
    · contradiction
  · obtain ⟨index, _, inside⟩ := List.mem_flatMap.mp inside
    exact .inr ⟨index, (tidy.mem_declared_iff config).mp inside⟩

theorem unreserved : ∀ label ∈ declarations config commands, predefined.lookup label = none := by
  intro label member
  rcases tidy.mem_declarations member with rfl | ⟨index, origin, declares, rfl⟩
  · decide
  · cases declares with
    | function means => exact (tidy.functions means).2
    | label | call => exact not_predefined_of_mark (show '$' ∈ ['.', '$'] by decide) (by simp [Origin.label])

theorem legal : ∀ label ∈ declarations config commands, isSymbol label.toList = true := by
  intro label member
  rcases tidy.mem_declarations member with rfl | ⟨index, origin, declares, rfl⟩
  · decide
  · cases declares with
    | function means => exact (tidy.functions means).1.symbol
    | label means inside =>
        exact isSymbol_inside (tidy.enclosing_unmarked inside).symbol
          (symbolChar_of_isSymbol (tidy.labels means).symbol)
    | call means inside =>
        exact isSymbol_inside (tidy.enclosing_unmarked inside).symbol (symbolChar_returnName _)

end Tidy

/-- The labels of a tidy program are distinct exactly when none of its functions
has a label that is named like the return label of a call in it, and then no
label stops the assembler. -/
theorem labels_distinct_iff (read : readFiles files = .ok commands)
    (translated : translateCommands config commands = .ok (text, after)) (tidy : Tidy files commands) :
    (cleanedLines text.toList).filter opensLabel =
        ((declarations config commands).map fun label => (Statement.label label).text.toList) ∧
      ((declarations config commands).Nodup ↔ Apart config commands) ∧
      (Apart config commands → ∀ place label, build files config ≠ .error ⟨place, .duplicateLabel label⟩) := by
  have clear := clear_of_readFiles read
  have oneLine : ∀ command ∈ commands, '\n' ∉ command.file.toList := by
    intro command member
    obtain ⟨⟨file, inFiles, same⟩, _⟩ := clear command member
    rw [same]
    exact lineFeed_not_mem_symbol (tidy.files file inFiles).symbol
  have lines := cleanedLines_draft config oneLine fun command member => (clear command member).2
  have declared : (cleanedLines text.toList).filter opensLabel =
      (declarations config commands).map fun label => (Statement.label label).text.toList := by
    rw [(draft_of_translateCommands translated).1] at lines
    rw [lines, labelLines_cleaned (by rw [labels_outline]; exact tidy.legal), labels_outline]
  refine ⟨declared, tidy.nodup_declarations_iff, fun apart place label failed => ?_⟩
  rw [build_eq read translated] at failed
  rcases fault_of_listing declared (tidy.nodup_declarations_iff.mpr apart) tidy.unreserved (error_of_map failed)
    with misread | ⟨value, overflow⟩
  · cases misread
  · contradiction

def calling (label : String) : List SourceFile :=
  [⟨"Main", "function Main.f 0\nlabel " ++ label ++ "\ncall Main.f 0"⟩]

section Calling

variable {label : String} (table : operationsOf commands =
  [some ("Main", .function "Main.f" 0), some ("Main", .label label), some ("Main", .call "Main.f" 0)])

include table

theorem means_calling (means : Means commands index file operation) :
    file = "Main" ∧ ((index = 0 ∧ operation = .function "Main.f" 0) ∨ (index = 1 ∧ operation = .label label) ∨
      index = 2 ∧ operation = .call "Main.f" 0) := by
  have found := means_iff.mp means
  rw [table] at found
  rcases index with _ | _ | _ | index <;> simp at found <;> simp [found]

theorem function_calling {locals : Nat} (means : Means commands index file (.function name locals)) :
    index = 0 ∧ name = "Main.f" := by
  obtain ⟨_, first, named, _⟩ : file = "Main" ∧ index = 0 ∧ name = "Main.f" ∧ locals = 0 := by
    simpa using means_calling table means
  exact ⟨first, named⟩

theorem label_calling (means : Means commands index file (.label name)) : index = 1 ∧ name = label := by
  obtain ⟨_, second, named⟩ : file = "Main" ∧ index = 1 ∧ name = label := by simpa using means_calling table means
  exact ⟨second, named⟩

theorem tidy_calling (unmarked : Unmarked label) : Tidy (calling label) commands := by
  have main : Unmarked "Main" := ⟨by decide, by decide⟩
  have begins : Means commands 0 "Main" (.function "Main.f" 0) := means_iff.mpr (by rw [table]; rfl)
  refine ⟨fun source member => ?_, fun means => ?_, fun means => ?_, fun means => ?_, fun one two => ?_,
    fun one two _ => ?_⟩
  · rw [List.mem_singleton.mp member]
    exact main
  · rcases means_calling table means with ⟨rfl, ⟨rfl, rfl⟩ | ⟨rfl, rfl⟩ | ⟨rfl, rfl⟩⟩
    · exact .inl ⟨_, _, rfl⟩
    · exact .inr ⟨0, by decide, _, _, begins⟩
    · exact .inr ⟨0, by decide, _, _, begins⟩
  · rw [(function_calling table means).2]
    exact ⟨⟨by decide, by decide⟩, by decide⟩
  · rw [(label_calling table means).2]
    exact unmarked
  · exact (function_calling table one).1.trans (function_calling table two).1.symm
  · exact (label_calling table one).1.trans (label_calling table two).1.symm

end Calling

/-- The label of a return is nothing special to the translation, so a program can take it. -/
theorem return_label_taken : ∃ commands text after, readFiles (calling "ret.0") = .ok commands ∧
    translateCommands ⟨false, false⟩ commands = .ok (text, after) ∧ Tidy (calling "ret.0") commands ∧
      ¬ (declarations ⟨false, false⟩ commands).Nodup ∧
      build (calling "ret.0") ⟨false, false⟩ = .error ⟨.line 50, .duplicateLabel "Main.f$ret.0"⟩ := by
  have fails : failure? (build (calling "ret.0") ⟨false, false⟩) =
      some ⟨.line 50, .duplicateLabel "Main.f$ret.0"⟩ := by decide +kernel
  have translates : (translate (calling "ret.0") ⟨false, false⟩).toOption.isSome = true := by decide +kernel
  obtain ⟨text, translated⟩ := exists_ok_of_isSome translates
  obtain ⟨commands, after, read, translated⟩ := commands_of_translate translated
  have facts : (readFiles (calling "ret.0")).toOption.map (fun commands =>
      (operationsOf commands, enclosing commands 1, enclosing commands 2, returnNumber ⟨false, false⟩ commands 2)) =
        some ([some ("Main", .function "Main.f" 0), some ("Main", .label "ret.0"), some ("Main", .call "Main.f" 0)],
          some "Main.f", some "Main.f", 0) := by decide +kernel
  rw [read] at facts
  have facts := Option.some.inj facts
  simp only [Prod.mk.injEq] at facts
  obtain ⟨table, inLabel, inCall, number⟩ := facts
  have tidy := tidy_calling table ⟨by decide, by decide⟩
  have label : Means commands 1 "Main" (.label "ret.0") := means_iff.mpr (by rw [table]; rfl)
  have call : Means commands 2 "Main" (.call "Main.f" 0) := means_iff.mpr (by rw [table]; rfl)
  refine ⟨commands, text, after, read, translated, tidy, fun distinct => ?_, eq_error_of_failure? fails⟩
  have returns : ReturnsTo ⟨false, false⟩ commands "Main.f" "ret.0" := by
    rw [show "ret.0" = returnName (returnNumber ⟨false, false⟩ commands 2) by rw [number]; rfl]
    exact .call call inCall
  exact tidy.nodup_declarations_iff.mp distinct label inLabel returns

theorem labels_distinct_iff_calling : ∃ commands text after, readFiles (calling "L") = .ok commands ∧
    translateCommands ⟨false, false⟩ commands = .ok (text, after) ∧ Tidy (calling "L") commands ∧
      (cleanedLines text.toList).filter opensLabel =
        ["(Main.f)".toList, "(Main.f$L)".toList, "(Main.f$ret.0)".toList] ∧
      ∀ place label, build (calling "L") ⟨false, false⟩ ≠ .error ⟨place, .duplicateLabel label⟩ := by
  have translates : (translate (calling "L") ⟨false, false⟩).toOption.isSome = true := by decide +kernel
  obtain ⟨text, translated⟩ := exists_ok_of_isSome translates
  obtain ⟨commands, after, read, translated⟩ := commands_of_translate translated
  have facts : (readFiles (calling "L")).toOption.map (fun commands =>
      (operationsOf commands, declarations ⟨false, false⟩ commands)) =
        some ([some ("Main", .function "Main.f" 0), some ("Main", .label "L"), some ("Main", .call "Main.f" 0)],
          ["Main.f", "Main.f$L", "Main.f$ret.0"]) := by decide +kernel
  rw [read] at facts
  have facts := Option.some.inj facts
  simp only [Prod.mk.injEq] at facts
  obtain ⟨table, declared⟩ := facts
  have tidy := tidy_calling table ⟨by decide, by decide⟩
  obtain ⟨lines, distinct, unstopped⟩ := labels_distinct_iff read translated tidy
  rw [declared] at lines distinct
  exact ⟨commands, text, after, read, translated, tidy, lines, unstopped (distinct.mp (by decide))⟩

end Hack.Stack
