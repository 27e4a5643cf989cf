import Hack.Proofs.InPlace
import Hack.Proofs.Stack.Acceptance

namespace Hack.Stack

open Hack.Assembly InPlace

variable {α : Type}

namespace Command

/-- What is asked of a command, or its fault with the place of the command. -/
def demand (command : Command) : Except Fault α → InPlace Emission Error α
  | .ok value => pure value
  | .error fault => throw (command.blame fault)

def writeFunction (command : Command) : InPlace Emission Error String := do
  let name ← command.demand command.requireName
  let locals ← command.demand command.requireNumber
  modify fun emission => { emission with enclosing := some name }
  return Statement.render (functionCode name locals)

/-- The return label counts as handed out before the code is put together. -/
def writeCall (name : String) (arguments : Nat) (file : String) : InPlace Emission Error String := do
  let emission ← get
  modify fun emission => { emission with returns := emission.returns + 1 }
  return Statement.render (callCode name (emission.returnLabel file) arguments)

/-- The code of a command, which is not counted yet. -/
def write (command : Command) : InPlace Emission Error String :=
  match command.kind with
  | .function => command.writeFunction
  | .call => do
      let arguments ← command.demand command.requireNumber
      let name ← command.demand command.requireName
      writeCall name arguments command.file
  | _ => do
      let operation ← command.demand command.meaning
      let emission ← get
      return Statement.render (operation.code emission command.file)

def generateInPlace (annotate : Bool) (command : Command) : InPlace Emission Error String := do
  let code ← command.write
  modify fun emission => { emission with emitted := emission.emitted + countInstructions code }
  return comment annotate command ++ code

end Command

variable {command : Command} {operation : Operation} {fault : Fault} {emission : Emission}

theorem act_demand_bind {β : Type} (answer : Except Fault α) (next : α → InPlace Emission Error β) :
    (command.demand answer >>= next).act emission =
      match answer with
      | .ok value => (next value).act emission
      | .error fault => (.error (command.blame fault), emission) := by
  cases answer with
  | ok value => rfl
  | error fault => rfl

/-- The kind of the commands that stand for an operation. -/
def Operation.kind : Operation → CommandKind
  | .pushConstant _ | .push _ => .push
  | .pop _ => .pop
  | .arithmetic op => .arithmetic op
  | .label _ => .label
  | .goto _ => .goto
  | .ifGoto _ => .ifGoto
  | .function _ _ => .function
  | .call _ _ => .call
  | .ret => .ret

theorem kind_of_requirePush (required : command.requirePush = .ok operation) : operation.kind = .push := by
  obtain ⟨⟨segment, index⟩, _, finished⟩ := steps_of_bind required
  cases segment with
  | constant =>
      dsimp only at finished
      split at finished
      · contradiction
      · cases finished
        rfl
  | based base | temp | pointer | static =>
      obtain ⟨cell, _, finished⟩ := steps_of_bind finished
      cases finished
      rfl

theorem kind_of_requirePop (required : command.requirePop = .ok operation) : operation.kind = .pop := by
  obtain ⟨⟨segment, index⟩, _, finished⟩ := steps_of_bind required
  obtain ⟨cell, _, finished⟩ := steps_of_bind finished
  cases finished
  rfl

theorem kind_of_meaning (meaning : command.meaning = .ok operation) : operation.kind = command.kind := by
  unfold Command.meaning at meaning
  cases kind : command.kind with
  | push =>
      rw [kind] at meaning
      exact kind_of_requirePush meaning
  | pop =>
      rw [kind] at meaning
      exact kind_of_requirePop meaning
  | label | goto | ifGoto =>
      rw [kind] at meaning
      obtain ⟨name, _, rfl⟩ := steps_of_map meaning
      rfl
  | function | call =>
      rw [kind] at meaning
      obtain ⟨name, _, rest⟩ := steps_of_bind meaning
      obtain ⟨number, _, finished⟩ := steps_of_bind rest
      cases finished
      rfl
  | ret | arithmetic op =>
      rw [kind] at meaning
      cases meaning
      rfl

theorem advance_of_kind (noFunction : operation.kind ≠ .function) (noCall : operation.kind ≠ .call) (code : String) :
    emission.advance operation code = { emission with emitted := emission.emitted + countInstructions code } := by
  cases operation with
  | function name locals => contradiction
  | call name arguments => contradiction
  | _ => rfl

/-- Up to the emission counter, a command is written as its operation is emitted. -/
theorem act_write_of_meaning (meaning : command.meaning = .ok operation) :
    command.write.act emission = (.ok (Statement.render (operation.code emission command.file)),
      { emission.advance operation "" with emitted := emission.emitted }) := by
  cases kind : command.kind with
  | function =>
      simp only [Command.write, kind, Command.writeFunction, act_demand_bind]
      simp only [Command.meaning, kind] at meaning
      obtain ⟨name, named, rest⟩ := steps_of_bind meaning
      obtain ⟨locals, counted, finished⟩ := steps_of_bind rest
      cases finished
      rw [named, counted]
      rfl
  | call =>
      simp only [Command.write, kind, act_demand_bind]
      simp only [Command.meaning, kind] at meaning
      obtain ⟨name, named, rest⟩ := steps_of_bind meaning
      obtain ⟨arguments, counted, finished⟩ := steps_of_bind rest
      cases finished
      rw [named, counted]
      rfl
  | _ =>
      have same := kind_of_meaning meaning
      rw [kind] at same
      rw [advance_of_kind (by simp [same]) (by simp [same])]
      simp only [Command.write, kind, act_demand_bind, meaning]
      rfl

theorem act_write_of_fault (fails : command.meaning = .error fault) :
    command.write.act emission = (.error (command.blame fault), emission) := by
  cases kind : command.kind with
  | function =>
      simp only [Command.write, kind, Command.writeFunction, act_demand_bind]
      simp only [Command.meaning, kind] at fails
      rcases error_of_bind fails with unnamed | ⟨name, named, fails⟩
      · rw [unnamed]
      · rcases error_of_bind fails with uncounted | ⟨locals, _, finished⟩
        · rw [named, uncounted]
        · cases finished
  | call =>
      simp only [Command.write, kind, act_demand_bind]
      cases counted : command.number with
      | none =>
          -- The count is asked for before the name, but the fault is the same if both are missing.
          have missed := Command.meaning_of_illFormed (.uncounted (.inr kind) counted)
          rw [fails] at missed
          cases missed
          simp only [Command.requireNumber, counted]
      | some arguments =>
          have required : command.requireNumber = .ok arguments := by rw [Command.requireNumber, counted]
          rw [required]
          simp only [Command.meaning, kind] at fails
          rcases error_of_bind fails with unnamed | ⟨name, _, fails⟩
          · rw [unnamed]
          · rw [required] at fails
            cases fails
  | _ => simp only [Command.write, kind, act_demand_bind, fails]

/-- A command changes the emission in place into the one that is handed on. -/
theorem generateInPlace_settles (annotate : Bool) (command : Command) :
    (command.generateInPlace annotate).Settles fun emission => emission.generate annotate command := by
  intro emission
  rw [Command.generateInPlace, act_bind]
  cases meaning : command.meaning with
  | error fault =>
      rw [act_write_of_fault meaning]
      simp only [Emission.generate, Command.operation, meaning]
      rfl
  | ok operation =>
      have read : command.operation = .ok operation := by
        rw [Command.operation, meaning]
        rfl
      rw [act_write_of_meaning meaning]
      dsimp only
      rw [generate_of_operation annotate read]
      rfl

/-- A command that fails leaves no trace: the emission counter, the number of
the next return label and the enclosing function are what they were, and the
commands around it come to the same outcomes and to the same end without it. -/
theorem failures_leave_no_trace (annotate : Bool) :
    (∀ command : Command,
        (command.generateInPlace annotate).Settles fun emission => emission.generate annotate command) ∧
      (∀ (command : Command) emission error after,
        (command.generateInPlace annotate).act emission = (.error error, after) → after = emission) ∧
      ∀ commands emission results after,
        outcomes (Command.generateInPlace annotate) commands emission = (results, after) →
          outcomes (Command.generateInPlace annotate) (succeeding commands results) emission =
              (results.filter Except.isOk, after) ∧
            generateAll annotate (succeeding commands results) emission =
              .ok (results.filterMap Except.toOption, after) := by
  have settles : ∀ command : Command,
      (command.generateInPlace annotate).Settles fun emission => emission.generate annotate command :=
    generateInPlace_settles annotate
  refine ⟨settles, fun command => (settles command).clean, fun commands emission results after run => ?_⟩
  have others := outcomes_succeeding (fun command => (settles command).clean) commands emission
  have alone := runM_succeeding settles commands emission
  rw [run] at others alone
  exact ⟨others, alone⟩

end Hack.Stack
