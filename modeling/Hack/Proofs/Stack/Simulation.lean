import Hack.Proofs.Stack.Calls

namespace Hack.Stack

/-! The machine does what a program means.

Every step of a program is matched by the instructions of its command.  The
memories agree but for the scratch cells, and the program counter is where the
code of the next command begins.
-/

open Hack.Assembly

variable {files : List SourceFile} {config : Config} {built : Built files config}
variable {before after : State} {memory other : Memory} {machine : Machine} {index target : Nat} {file name : String}

namespace Built

/-- A machine is in a state of the program. -/
structure Represents (built : Built files config) (state : State) (machine : Machine) : Prop where
  program_eq : machine.program = built.program
  pc_eq : machine.pc = built.start state.index
  agree : Agree state.memory machine.memory

theorem static_outside {number : Nat} (used : .address (.symbol (staticSymbol file number)) ∈ code built.statements)
    (separate : .label (staticSymbol file number) ∉ built.statements) :
    built.placement.static file number ∉ scratch := by
  have free : predefined.lookup (staticSymbol file number) = none :=
    not_predefined_of_mark (show '.' ∈ ['.', '$'] by decide) (by simp [staticSymbol])
  have above : 16 ≤ addressOf built.statements (staticSymbol file number) := by
    rw [addressOf, fixedAddress?, free, labelPosition?_eq_none_iff.mpr separate]
    exact Nat.le_add_right 16 _
  have value := toNat_wordOf built.linked used
  intro inside
  change wordOf built.statements (staticSymbol file number) ∈ [13, 14] at inside
  rcases List.mem_pair.mp inside with same | same
  · rw [same] at value
    change 13 = _ at value
    omega
  · rw [same] at value
    change 14 = _ at value
    omega

end Built

theorem fixed_outside {commands : List Command} {address : Nat}
    (means : Means commands index file (.push (.fixed address))) : BitVec.ofNat 16 address ∉ scratch := by
  obtain ⟨command, _, read, _⟩ := means
  obtain ⟨low, high⟩ := fixed_of_operation read
  intro inside
  have values : (BitVec.ofNat 16 address).toNat = 13 ∨ (BitVec.ofNat 16 address).toNat = 14 := by
    change BitVec.ofNat 16 address ∈ [13, 14] at inside
    rcases List.mem_pair.mp inside with same | same
    · exact .inl (congrArg BitVec.toNat same)
    · exact .inr (congrArg BitVec.toNat same)
  rw [BitVec.toNat_ofNat] at values
  omega

namespace Built

theorem addressOf_label (closed : built.Closed) {emission : Emission}
    (scope : emission.enclosing = enclosing built.commands index)
    (labels : Labels built.commands index name target) :
    addressOf built.statements (emission.qualify name) = built.start target := by
  obtain ⟨⟨file, means⟩, same⟩ := labels
  obtain ⟨other, _, around, stands, _⟩ := stands_code closed means
  have qualified : other.qualify name = emission.qualify name := by
    rw [Emission.qualify, Emission.qualify, around, same, scope]
  rw [Operation.code, qualified] at stands
  exact stands.label built.linked

theorem addressOf_function (closed : built.Closed) (begins : Begins built.commands name target) :
    addressOf built.statements name = built.start target := by
  obtain ⟨file, locals, means⟩ := begins
  obtain ⟨other, _, _, stands, _⟩ := stands_code closed means
  exact stands.label built.linked

theorem push_matches {cell : Cell} (closed : built.Closed)
    (means : Means built.commands index file (.push cell))
    (outside : ∀ cell' ∈ (Operation.push cell).consults memory, cell' ∉ scratch) (agree : Agree memory other) :
    ∃ later, Leads built.program (built.start index) other (built.start (index + 1)) later ∧
      Agree (memory.push (memory.read (cell.address built.placement.static file memory))) later := by
  obtain ⟨emission, _, _, stands, next⟩ := stands_code closed means
  refine ⟨_, ?_, agree.push _⟩
  rw [next]
  have straight : ∀ statement ∈ (Operation.push cell).code emission file, statement.Straight := by
    cases cell <;> simp [Operation.code, Cell.load, pushD, pushComp, growStack]
  refine leads_of_perform built.linked stands straight fun a d => ?_
  rw [Operation.code, perform_push]
  congr 1
  change other.read (cell.address built.placement.static file other) = _
  cases cell with
  | indirect base number =>
      have pointer : memory.read base.cell = other.read base.cell := agree _ (by cases base <;> decide)
      rw [Cell.address, Cell.address, ← pointer]
      exact (agree _ (outside _ List.mem_cons_self)).symm
  | fixed address => exact (agree _ (fixed_outside means)).symm
  | static number =>
      have used := stands.uses (show atName (staticSymbol file number) ∈ _ by simp [Operation.code, Cell.load])
      exact (agree _ (static_outside used (closed.statics index file number (.inl means)))).symm

theorem pop_matches {cell : Cell} (closed : built.Closed)
    (means : Means built.commands index file (.pop cell))
    (outside : ∀ cell' ∈ (Operation.pop cell).consults memory, cell' ∉ scratch) (agree : Agree memory other) :
    ∃ later, Leads built.program (built.start index) other (built.start (index + 1)) later ∧
      Agree (memory.drop.write (cell.address built.placement.static file memory) memory.drop.top) later := by
  obtain ⟨emission, _, _, stands, next⟩ := stands_code closed means
  have straight : ∀ statement ∈ (Operation.pop cell).code emission file, statement.Straight := by
    cases cell <;> simp [Operation.code, Cell.store, popD, dropTop]
  have value : memory.drop.sp ∉ scratch := outside _ List.mem_cons_self
  rw [next]
  cases cell with
  | indirect base number =>
      have pointer : memory.read base.cell = other.read base.cell := agree _ (by cases base <;> decide)
      have performs : ∀ a d, (perform (wordOf built.statements) ((Cell.indirect base number).store file)
          ⟨other, a, d⟩).memory = _ := fun a d => perform_store_indirect base number
      refine ⟨_, leads_of_perform built.linked stands straight performs, ?_⟩
      have noted : Agree memory (other.write 13 (other.read base.cell + BitVec.ofNat 16 number)) :=
        agree.note (by decide)
      have kept : (other.write 13 (other.read base.cell + BitVec.ofNat 16 number)).drop.read 13 =
          memory.read base.cell + BitVec.ofNat 16 number := by
        rw [Memory.drop, Memory.read_write_of_ne (by decide), Memory.read_write_self, pointer]
      simp only
      rw [kept, ← noted.drop.top value]
      exact noted.drop.write _ _
  | fixed address =>
      have performs : ∀ a d, (perform (wordOf built.statements) ((Cell.fixed address).store file)
          ⟨other, a, d⟩).memory = _ := fun a d => perform_store_direct (by simp)
      refine ⟨_, leads_of_perform built.linked stands straight performs, ?_⟩
      rw [← agree.drop.top value]
      exact agree.drop.write _ _
  | static number =>
      have performs : ∀ a d, (perform (wordOf built.statements) ((Cell.static number).store file)
          ⟨other, a, d⟩).memory = _ := fun a d => perform_store_direct (by simp)
      refine ⟨_, leads_of_perform built.linked stands straight performs, ?_⟩
      rw [← agree.drop.top value]
      exact agree.drop.write _ _

theorem step_matches (closed : built.Closed) (step : Step built.commands built.placement before after)
    (undisturbed : Undisturbed built.commands before) (agree : Agree before.memory other) :
    ∃ later, Leads built.program (built.start before.index) other (built.start after.index) later ∧
      Agree after.memory later := by
  cases step with
  | pushConstant means =>
      obtain ⟨emission, _, _, stands, next⟩ := stands_code closed means
      refine ⟨_, ?_, agree.push _⟩
      rw [next]
      refine leads_of_perform built.linked stands ?_ fun a d => ?_
      · simp [Operation.code, pushD, pushComp, growStack]
      · simp [Operation.code, Comp.value, Input.select]
  | push means => exact push_matches closed means (undisturbed _ _ means) agree
  | pop means => exact pop_matches closed means (undisturbed _ _ means) agree
  | arithmetic means =>
      obtain ⟨emission, start, _, stands, next⟩ := stands_code closed means
      refine ⟨_, ?_, agree.apply _ (undisturbed _ _ means)⟩
      rw [next]
      rw [Operation.code, start] at stands ⊢
      exact leads_arithmetic _ built.linked stands
  | label means =>
      obtain ⟨emission, _, _, _, next⟩ := stands_code closed means
      refine ⟨other, ?_, agree⟩
      rw [next]
      exact .refl _ _ _
  | goto means labels =>
      obtain ⟨emission, _, scope, stands, _⟩ := stands_code closed means
      refine ⟨other, ?_, agree⟩
      rw [← addressOf_label closed scope labels]
      exact leads_goto built.linked stands
  | ifGotoTaken means labels holds =>
      obtain ⟨emission, _, scope, stands, _⟩ := stands_code closed means
      refine ⟨other.drop, ?_, agree.drop⟩
      have value := agree.drop.top (undisturbed _ _ means _ List.mem_cons_self)
      rw [value] at holds
      have leads : Leads built.program _ other _ _ := leads_ifGoto built.linked stands
      rw [if_pos holds, addressOf_label closed scope labels] at leads
      exact leads
  | ifGotoPassed means fails =>
      obtain ⟨emission, _, _, stands, next⟩ := stands_code closed means
      refine ⟨other.drop, ?_, agree.drop⟩
      have value := agree.drop.top (undisturbed _ _ means _ List.mem_cons_self)
      rw [value] at fails
      have leads : Leads built.program _ other _ _ := leads_ifGoto built.linked stands
      rw [if_neg (not_not.mpr fails)] at leads
      rw [next]
      exact leads
  | function means =>
      obtain ⟨emission, _, _, stands, next⟩ := stands_code closed means
      refine ⟨_, ?_, agree.reserve _⟩
      rw [next]
      refine leads_of_perform built.linked stands ?_ fun a d => ?_
      · exact straight_functionCode _ _
      · rw [Operation.code, functionCode, perform_cons, act_label, perform_locals]
  | call means begins => exact ⟨_, leads_call_function means begins other, agree.call _ _⟩
  | ret means within back =>
      have unwinding := unwinding_returned agree (undisturbed _ _ means)
      have leads := leads_return_code means other
      refine ⟨_, ?_, unwinding.agree⟩
      rw [unwinding.back_eq] at leads
      simp only
      rw [show built.start _ = _ from back]
      exact leads

theorem Represents.step (closed : built.Closed) (step : Step built.commands built.placement before after)
    (undisturbed : Undisturbed built.commands before) (represents : built.Represents before machine) :
    ∃ later, machine.Reaches later ∧ built.Represents after later := by
  obtain ⟨same, place, agree⟩ := represents
  obtain ⟨memory, program, a, d, pc⟩ := machine
  subst same place
  obtain ⟨later, leads, kept⟩ := step_matches closed step undisturbed agree
  obtain ⟨a', d', reached⟩ := leads a d
  exact ⟨_, reached, rfl, rfl, kept⟩

theorem Represents.runs (closed : built.Closed) (runs : Runs built.commands built.placement before after)
    (represents : built.Represents before machine) :
    ∃ later, machine.Reaches later ∧ built.Represents after later := by
  induction runs with
  | refl => exact ⟨machine, .refl machine, represents⟩
  | tail earlier last ih =>
      obtain ⟨middle, reached, between⟩ := ih
      obtain ⟨later, arrived, kept⟩ := between.step closed last.1 last.2
      exact ⟨later, reached.trans arrived, kept⟩

/-- The states in which a program may begin: at its first command, or, after
the bootstrap, in `Sys.init` as if it had been called. -/
def Opens (built : Built files config) (memory : Memory) (state : State) : Prop :=
  if config.bootstrap then
    Begins built.commands "Sys.init" state.index ∧
      state.memory = (memory.write 0 256).call (BitVec.ofNat 16 (built.start 0)) 0
  else state = ⟨0, memory⟩

theorem exists_opens (closed : built.Closed) (memory : Memory) : ∃ state, built.Opens memory state := by
  unfold Opens
  cases bootstraps : config.bootstrap with
  | false => exact ⟨_, rfl⟩
  | true =>
      obtain ⟨target, begins⟩ := closed.init bootstraps
      exact ⟨⟨target, _⟩, begins, rfl⟩

theorem opens_matches (closed : built.Closed) {first : State} (opens : built.Opens memory first) :
    Leads built.program 0 memory (built.start first.index) first.memory := by
  obtain ⟨stands, length⟩ := built.stands_openingCode
  unfold Opens at opens
  unfold openingCode at stands length
  cases bootstraps : config.bootstrap with
  | false =>
      rw [bootstraps, if_neg Bool.false_ne_true] at opens length
      rw [opens, length]
      exact .refl _ _ _
  | true =>
      rw [bootstraps, if_pos rfl] at opens stands length
      obtain ⟨begins, same⟩ := opens
      have setup : Leads built.program 0 memory (0 + (code setupCode).length) (memory.write 0 256) :=
        leads_of_perform built.linked stands.left (by simp [setupCode]) fun a d => by
          simp [setupCode, stackBase, Comp.value, Input.select]
      have call : Leads built.program _ (memory.write 0 256) _ _ := leads_call built.linked stands.right
      rw [addressOf_function closed begins] at call
      rw [same, length, bootstrapCode, code_append, List.length_append, ← Nat.zero_add (code setupCode).length]
      exact setup.trans call

/-- A program goes on until it is behind its last command, unless it returns to
an address where no command begins. -/
theorem exists_step (closed : built.Closed) (within : before.index < built.commands.length) :
    (∃ file, Means built.commands before.index file .ret) ∨
      ∃ after, Step built.commands built.placement before after := by
  obtain ⟨index, memory⟩ := before
  have member := List.getElem_mem within
  obtain ⟨operation, read⟩ := exists_operation _ member
  have means : Means built.commands index built.commands[index].file operation :=
    ⟨_, List.getElem?_eq_getElem within, read, rfl⟩
  cases operation with
  | pushConstant value => exact .inr ⟨_, .pushConstant means⟩
  | push cell => exact .inr ⟨_, .push means⟩
  | pop cell => exact .inr ⟨_, .pop means⟩
  | arithmetic op => exact .inr ⟨_, .arithmetic means⟩
  | label name => exact .inr ⟨_, .label means⟩
  | goto name =>
      obtain ⟨target, labels⟩ := closed.targets _ _ _ (.inl means)
      exact .inr ⟨_, .goto means labels⟩
  | ifGoto name =>
      obtain ⟨target, labels⟩ := closed.targets _ _ _ (.inr means)
      by_cases zero : memory.drop.top = 0
      · exact .inr ⟨_, .ifGotoPassed means zero⟩
      · exact .inr ⟨_, .ifGotoTaken means labels zero⟩
  | function name locals => exact .inr ⟨_, .function means⟩
  | call name arguments =>
      obtain ⟨target, begins⟩ := closed.callees _ _ _ _ means
      exact .inr ⟨_, .call means begins⟩
  | ret => exact .inl ⟨_, means⟩

end Built

/-- A program that can be built runs on the machine as it is meant to run:
whatever the program does, the machine does. -/
theorem machine_simulates (built : Built files config) (closed : built.Closed) :
    build files config = .ok (binaryText built.entries) ∧
      (∀ {before after : State} {machine : Machine}, Runs built.commands built.placement before after →
        built.Represents before machine → ∃ later, machine.Reaches later ∧ built.Represents after later) ∧
      (∀ memory a d, (∃ first, built.Opens memory first) ∧
        ∀ first, built.Opens memory first →
          ∃ later, Machine.Reaches ⟨memory, built.program, a, d, 0⟩ later ∧ built.Represents first later) ∧
      (∀ before : State, before.index < built.commands.length →
        (∃ file, Means built.commands before.index file .ret) ∨
          ∃ after, Step built.commands built.placement before after) ∧
      (∀ index file name arguments, Means built.commands index file (.call name arguments) →
        (BitVec.ofNat 16 (built.placement.start (index + 1))).toNat = built.placement.start (index + 1)) ∧
      built.start built.commands.length = built.program.size := by
  refine ⟨built.build_eq, fun runs represents => represents.runs closed runs, fun memory a d => ⟨?_, ?_⟩,
    fun before within => Built.exists_step closed within, ?_, built.start_length⟩
  · exact Built.exists_opens closed memory
  · intro first opens
    obtain ⟨a', d', reached⟩ := Built.opens_matches closed opens a d
    exact ⟨_, reached, rfl, rfl, .refl _⟩
  · intro index file name arguments means
    obtain ⟨target, begins⟩ := closed.callees index file name arguments means
    exact Built.toNat_returnAddress means begins

/-- A program that pushes a variable and then runs in a circle. -/
def circle : List SourceFile :=
  [⟨"Main", "function Main.loop 0\npush static 0\nlabel L\ngoto L"⟩]

theorem exists_built_circle : ∃ _ : Built circle ⟨false, false⟩, True := by
  have succeeds : (build circle ⟨false, false⟩).toOption.isSome = true := by decide +kernel
  obtain ⟨binary, succeeded⟩ := exists_ok_of_isSome succeeds
  obtain ⟨built, _⟩ := exists_built succeeded
  exact ⟨built, trivial⟩

theorem operationsOf_circle (built : Built circle ⟨false, false⟩) :
    operationsOf built.commands = [some ("Main", .function "Main.loop" 0), some ("Main", .push (.static 0)),
      some ("Main", .label "L"), some ("Main", .goto "L")] := by
  have table : (readFiles circle).toOption.map operationsOf = some [some ("Main", .function "Main.loop" 0),
      some ("Main", .push (.static 0)), some ("Main", .label "L"), some ("Main", .goto "L")] := by decide +kernel
  rw [built.read] at table
  exact Option.some.inj table

theorem means_circle {built : Built circle ⟨false, false⟩} {operation : Operation}
    (means : Means built.commands index file operation) :
    file = "Main" ∧ ((index = 0 ∧ operation = .function "Main.loop" 0) ∨
      (index = 1 ∧ operation = .push (.static 0)) ∨ (index = 2 ∧ operation = .label "L") ∨
        (index = 3 ∧ operation = .goto "L")) := by
  rw [means_iff, operationsOf_circle] at means
  rcases index with _ | _ | _ | _ | index
  all_goals
    simp only [List.getElem?_cons_zero, List.getElem?_cons_succ, List.getElem?_nil, Option.some.injEq,
      Prod.mk.injEq, reduceCtorEq] at means
  all_goals
    obtain ⟨rfl, rfl⟩ := means
    simp

theorem undisturbed_circle (built : Built circle ⟨false, false⟩) (state : State) (within : state.index < 2) :
    Undisturbed built.commands state := by
  intro file operation held cell member
  obtain ⟨_, ⟨_, rfl⟩ | ⟨_, rfl⟩ | ⟨same, _⟩ | ⟨same, _⟩⟩ := means_circle held
  · simp [Operation.consults] at member
  · simp [Operation.consults] at member
  · omega
  · omega

theorem closed_circle (built : Built circle ⟨false, false⟩) : built.Closed := by
  have separate : .label (staticSymbol "Main" 0) ∉ built.statements := by
    have checked : ((translate circle ⟨false, false⟩).toOption.all fun text =>
        decide (.label (staticSymbol "Main" 0) ∉ statementsIn text)) = true := by decide +kernel
    rw [built.translated] at checked
    have holds : decide (.label (staticSymbol "Main" 0) ∉ statementsIn built.text) = true := checked
    exact of_decide_eq_true holds
  have label : Labels built.commands 3 "L" 2 := by
    refine ⟨⟨"Main", means_iff.mpr (by rw [operationsOf_circle]; rfl)⟩, ?_⟩
    have scopes : ((readFiles circle).toOption.all fun commands =>
        decide (enclosing commands 2 = enclosing commands 3)) = true := by decide +kernel
    rw [built.read] at scopes
    have holds : decide (enclosing built.commands 2 = enclosing built.commands 3) = true := scopes
    exact of_decide_eq_true holds
  refine ⟨?_, ?_, ?_, ?_, ?_, ?_⟩
  · simp [circle, isSymbol, opensSymbol]
  · intro index file operation means name named
    obtain ⟨_, ⟨_, rfl⟩ | ⟨_, rfl⟩ | ⟨_, rfl⟩ | ⟨_, rfl⟩⟩ := means_circle means <;> cases named <;> decide
  · rintro index file name (means | means)
    · obtain ⟨_, ⟨_, same⟩ | ⟨_, same⟩ | ⟨_, same⟩ | ⟨rfl, same⟩⟩ := means_circle means <;> cases same
      exact ⟨2, label⟩
    · obtain ⟨_, ⟨_, same⟩ | ⟨_, same⟩ | ⟨_, same⟩ | ⟨_, same⟩⟩ := means_circle means <;> cases same
  · intro index file name arguments means
    obtain ⟨_, ⟨_, same⟩ | ⟨_, same⟩ | ⟨_, same⟩ | ⟨_, same⟩⟩ := means_circle means <;> cases same
  · intro bootstraps
    cases bootstraps
  · rintro index file number (means | means)
    · obtain ⟨rfl, ⟨_, same⟩ | ⟨_, same⟩ | ⟨_, same⟩ | ⟨_, same⟩⟩ := means_circle means <;> cases same
      exact separate
    · obtain ⟨_, ⟨_, same⟩ | ⟨_, same⟩ | ⟨_, same⟩ | ⟨_, same⟩⟩ := means_circle means <;> cases same

/-- The machine comes to the label with the variable on the stack. -/
theorem machine_simulates_circle :
    ∃ built : Built circle ⟨false, false⟩, built.Closed ∧
      ∀ memory a d, ∃ later, Machine.Reaches ⟨memory, built.program, a, d, 0⟩ later ∧
        built.Represents ⟨2, memory.push (memory.read
          ((Cell.static 0).address built.placement.static "Main" memory))⟩ later := by
  obtain ⟨built, _⟩ := exists_built_circle
  refine ⟨built, closed_circle built, fun memory a d => ?_⟩
  obtain ⟨_, simulates, starts, _⟩ := machine_simulates built (closed_circle built)
  obtain ⟨middle, reached, begun⟩ := (starts memory a d).2 ⟨0, memory⟩ rfl
  have first : Means built.commands 0 "Main" (.function "Main.loop" 0) :=
    means_iff.mpr (by rw [operationsOf_circle]; rfl)
  have second : Means built.commands 1 "Main" (.push (.static 0)) :=
    means_iff.mpr (by rw [operationsOf_circle]; rfl)
  have one : Step built.commands built.placement ⟨0, memory⟩ ⟨1, memory⟩ := .function first
  have two : Step built.commands built.placement ⟨1, memory⟩
      ⟨2, memory.push (memory.read ((Cell.static 0).address built.placement.static "Main" memory))⟩ := .push second
  have runs : Runs built.commands built.placement ⟨0, memory⟩
      ⟨2, memory.push (memory.read ((Cell.static 0).address built.placement.static "Main" memory))⟩ :=
    .tail (.tail .refl ⟨one, undisturbed_circle built ⟨0, memory⟩ Nat.zero_lt_two⟩)
      ⟨two, undisturbed_circle built ⟨1, memory⟩ Nat.one_lt_two⟩
  obtain ⟨later, arrived, represents⟩ := simulates runs begun
  exact ⟨later, reached.trans arrived, represents⟩

end Hack.Stack
