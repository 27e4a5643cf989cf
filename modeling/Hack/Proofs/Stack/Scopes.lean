import Hack.Proofs.Stack.Acceptance
import Hack.Proofs.Stack.Building

namespace Hack.Stack

open Hack.Assembly

/-- The label that an operation declares or jumps to. -/
def Operation.label? : Operation → Option String
  | .label name | .goto name | .ifGoto name => some name
  | _ => none

/-- The symbol of a label in a function, or outside of all. -/
def symbolIn (function : Option String) (label : String) : String :=
  match function with
  | some name => name ++ "$" ++ label
  | none => label

/-- What the code of an operation has before and behind the symbol of its label. -/
def Operation.aroundLabel : Operation → String × String
  | .label _ => ("(", ")\n")
  | .goto _ => ("@", "\n0;JMP\n")
  | .ifGoto _ => ("@SP\nM=M-1\nA=M\nD=M\n@", "\nD;JNE\n")
  | _ => ("", "")

def lastFunction (commands : List Command) : Option String :=
  (commands.filterMap Command.opens?).getLast?

/-- The labels that the commands of a file declare or jump to, each with the
function of the file in which it stands. -/
def labelled (own : List Command) : List (String × Option String) :=
  own.zipIdx.filterMap fun (command, index) =>
    (command.operation.toOption.bind Operation.label?).map fun label => (label, enclosing own index)

/-- The symbols of the labels of a file, behind files that leave off in the function `outer`. -/
def labelSymbols (outer : Option String) (own : List Command) : List String :=
  (labelled own).map fun (label, function) => symbolIn (function.or outer) label

variable {before behind : List SourceFile} {file : SourceFile} {config : Config} {text : String}
variable {earlier own front back : List Command} {command : Command} {operation : Operation} {label : String}
variable {emission : Emission}

theorem qualify_eq (emission : Emission) (label : String) :
    emission.qualify label = symbolIn emission.enclosing label := rfl

theorem render_of_label (refers : operation.label? = some label) (emission : Emission) (file : String) :
    Statement.render (operation.code emission file) =
      operation.aroundLabel.1 ++ symbolIn emission.enclosing label ++ operation.aroundLabel.2 := by
  have popped : Statement.render popD = "@SP\nM=M-1\nA=M\nD=M\n" := by decide +kernel
  have always : gotoA.text = "0;JMP" := by decide +kernel
  have unlessZero : (jumpIf .d .notEqual).text = "D;JNE" := by decide +kernel
  have loads : ∀ symbol, (atName symbol).text = "@" ++ symbol := fun _ => rfl
  cases operation with
  | label name =>
      cases refers
      simp only [Operation.code, Statement.render_cons, Statement.render_nil, Statement.text, qualify_eq,
        String.append_empty, Operation.aroundLabel, String.append_assoc]
      rfl
  | goto name =>
      cases refers
      simp only [Operation.code, Statement.render_cons, Statement.render_nil, loads, always, qualify_eq,
        String.append_empty, Operation.aroundLabel, String.append_assoc]
      rfl
  | ifGoto name =>
      cases refers
      simp only [Operation.code, Statement.render_append, Statement.render_cons, Statement.render_nil, popped, loads,
        unlessZero, qualify_eq, String.append_empty, Operation.aroundLabel, String.append_assoc]
      rfl
  | _ => cases refers

theorem lastFunction_append (earlier front : List Command) :
    lastFunction (earlier ++ front) = (lastFunction front).or (lastFunction earlier) := by
  rw [lastFunction, List.filterMap_append, List.getLast?_append]
  rfl

theorem text_of_label (config : Config) (read : command.operation = .ok operation)
    (refers : operation.label? = some label) (front back : List Command) :
    ∃ rest, (draft config (front ++ command :: back)).text = (draft config front).text ++
      comment config.annotate command ++
        (operation.aroundLabel.1 ++ symbolIn (lastFunction front) label ++ operation.aroundLabel.2) ++ rest := by
  obtain ⟨rest, split⟩ := exists_text_append config (front ++ [command]) back
  refine ⟨rest, ?_⟩
  rw [lastFunction, ← enclosing_draft config, ← render_of_label refers _ command.file, List.append_cons, split,
    draft_concat, extend_of_operation read]
  simp only [String.append_assoc]

theorem symbolIn_ne (function label : String) : symbolIn (some function) label ≠ symbolIn none label := by
  intro same
  have lengths := congrArg String.length same
  simp [symbolIn] at lengths

/-- The labels of a file have their symbols from the file alone exactly when all
of them stand in functions of the file. -/
theorem labelSymbols_eq_iff (function : String) (own : List Command) :
    labelSymbols (some function) own = labelSymbols none own ↔
      ∀ label inside, (label, inside) ∈ labelled own → inside.isSome = true := by
  rw [labelSymbols, labelSymbols, List.map_inj_left]
  constructor
  · intro same label inside member
    cases inside with
    | some name => rfl
    | none => exact absurd (same _ member) (symbolIn_ne function label)
  · rintro inside ⟨label, own⟩ member
    obtain ⟨name, rfl⟩ := Option.isSome_iff_exists.mp (inside label own member)
    rfl

theorem labelSymbols_of_inside (inside : ∀ label inside, (label, inside) ∈ labelled own → inside.isSome = true)
    (outer : Option String) : labelSymbols outer own = labelSymbols none own := by
  cases outer with
  | none => rfl
  | some function => exact (labelSymbols_eq_iff function own).mpr inside

def leading : List SourceFile :=
  [⟨"A", "function A.f 0"⟩]

theorem lastFunction_leading : ∃ commands, readFiles leading = .ok commands ∧ lastFunction commands = some "A.f" := by
  have read : (readFiles leading).toOption.map lastFunction = some (some "A.f") := by decide +kernel
  obtain ⟨commands, held, last⟩ := Option.map_eq_some_iff.mp read
  exact ⟨commands, eq_ok_of_toOption held, last⟩

/-- A label, and a jump to one, has its symbol from the last function before it
in its file, or else from the last function of the files before.  So the symbols
of the labels of a file do not depend on the files before it exactly when all of
them stand in functions of the file. -/
theorem labels_scoped (translated : translate (before ++ file :: behind) config = .ok text) :
    ∃ earlier own, readFiles before = .ok earlier ∧ readFile file = .ok own ∧
      (∀ front command back, own = front ++ command :: back → ∃ operation, command.operation = .ok operation ∧
        ∀ label, operation.label? = some label → ∃ rest, text = (draft config (earlier ++ front)).text ++
          comment config.annotate command ++ (operation.aroundLabel.1 ++
            symbolIn ((lastFunction front).or (lastFunction earlier)) label ++ operation.aroundLabel.2) ++ rest) ∧
      ((∀ others found, readFiles others = .ok found → labelSymbols (lastFunction found) own = labelSymbols none own) ↔
        ∀ label inside, (label, inside) ∈ labelled own → inside.isSome = true) := by
  obtain ⟨commands, read, rfl, meaningful⟩ := draft_of_translate translated
  rw [readFiles_append] at read
  obtain ⟨earlier, readBefore, readRest⟩ := steps_of_bind read
  obtain ⟨others, readOthers, finished⟩ := steps_of_bind readRest
  cases finished
  rw [readFiles_cons] at readOthers
  obtain ⟨own, readOwn, readBehind⟩ := steps_of_bind readOthers
  obtain ⟨later, _, finished⟩ := steps_of_bind readBehind
  cases finished
  refine ⟨earlier, own, readBefore, readOwn, ?_, fun same => ?_, fun inside others found _ => ?_⟩
  · intro front command back split
    subst split
    obtain ⟨operation, means⟩ := meaningful command (by simp)
    refine ⟨operation, means, fun label refers => ?_⟩
    rw [← lastFunction_append, List.append_assoc, List.cons_append, ← List.append_assoc]
    exact text_of_label config means refers (earlier ++ front) (back ++ later)
  · -- One file that leaves off in a function tells the symbols apart.
    obtain ⟨found, readLeading, last⟩ := lastFunction_leading
    have alone := same leading found readLeading
    rw [last] at alone
    exact (labelSymbols_eq_iff "A.f" own).mp alone
  · exact labelSymbols_of_inside inside _

def settled : SourceFile :=
  ⟨"B", "function B.g 0\nlabel X"⟩

theorem labels_scoped_settled : ∃ text own, translate (leading ++ [settled]) ⟨false, false⟩ = .ok text ∧
    readFile settled = .ok own ∧
      ∀ others found, readFiles others = .ok found → labelSymbols (lastFunction found) own = ["B.g$X"] := by
  obtain ⟨text, translated⟩ : ∃ text, translate (leading ++ [settled]) ⟨false, false⟩ = .ok text :=
    exists_ok_of_isSome (by decide +kernel)
  obtain ⟨_, own, _, read, _, alone⟩ := labels_scoped translated
  have table : (readFile settled).toOption.map (fun own => (labelled own, labelSymbols none own)) =
      some ([("X", some "B.g")], ["B.g$X"]) := by decide +kernel
  rw [read] at table
  obtain ⟨labels, symbols⟩ := Prod.mk.inj (Option.some.inj table)
  have inside : ∀ label inside, (label, inside) ∈ labelled own → inside.isSome = true := by
    intro label inside member
    rw [labels] at member
    cases List.mem_singleton.mp member
    rfl
  exact ⟨text, own, translated, read, fun others found held => (alone.mpr inside others found held).trans symbols⟩

def jumping : SourceFile :=
  ⟨"B", "goto X\nlabel X"⟩

/-- A label outside of the functions of its own file takes the name of a function of another file. -/
theorem label_in_other_file : translate (leading ++ [jumping]) ⟨false, false⟩ = .ok "(A.f)\n@A.f$X\n0;JMP\n(A.f$X)\n" ∧
    translate [jumping] ⟨false, false⟩ = .ok "@X\n0;JMP\n(X)\n" ∧
    (readFile jumping).toOption.map labelled = some [("X", none), ("X", none)] :=
  ⟨eq_ok_of_toOption (by decide +kernel), eq_ok_of_toOption (by decide +kernel), by decide +kernel⟩

end Hack.Stack
