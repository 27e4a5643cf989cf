import Hack.Machine

namespace Hack.Machine

/-- The machine after this many steps, if all of them can be made. -/
def after? (machine : Machine) : Nat → Option Machine
  | 0 => some machine
  | count + 1 => machine.step.bind fun next => next.after? count

/-- The program counter has left the program. -/
def Outside (machine : Machine) : Prop :=
  machine.program.size ≤ machine.pc

/-- The program counter leaves the program with the last of these steps. -/
structure LeavesAfter (machine : Machine) (count : Nat) : Prop where
  outside : ∃ last, machine.after? count = some last ∧ last.Outside
  inside : ∀ earlier, earlier < count → ∃ middle, machine.after? earlier = some middle ∧ ¬ middle.Outside

variable {machine middle last next : Machine} {first second count limit : Nat}

theorem after?_zero : machine.after? 0 = some machine := rfl

theorem after?_succ (stepped : machine.step = some next) : machine.after? (count + 1) = next.after? count := by
  rw [after?, stepped, Option.bind_some]

theorem step_eq_none_iff : machine.step = none ↔ machine.Outside := by
  rw [step_eq_map, Option.map_eq_none_iff, fetch?, Array.getElem?_eq_none_iff, Outside]

theorem exists_step (inside : ¬ machine.Outside) : ∃ next, machine.step = some next := by
  rw [← step_eq_none_iff] at inside
  exact Option.ne_none_iff_exists'.mp inside

theorem outside_or_step (machine : Machine) : machine.Outside ∨ ∃ next, machine.step = some next := by
  by_cases outside : machine.Outside
  · exact .inl outside
  · exact .inr (exists_step outside)

theorem not_outside_of_step (stepped : machine.step = some next) : ¬ machine.Outside := by
  intro outside
  rw [step_eq_none_iff.mpr outside] at stepped
  contradiction

theorem after?_add : machine.after? (first + second) = (machine.after? first).bind fun middle => middle.after? second := by
  induction first generalizing machine with
  | zero => rw [Nat.zero_add, after?_zero, Option.bind_some]
  | succ first ih =>
      rw [Nat.add_right_comm]
      cases stepped : machine.step with
      | none => rw [after?, after?, stepped, Option.bind_none, Option.bind_none, Option.bind_none]
      | some next => rw [after?_succ stepped, after?_succ stepped, ih]

/-- No step leads on from a machine that has left its program. -/
theorem count_eq_zero_of_outside (outside : machine.Outside) (reached : machine.after? count = some last) : count = 0 := by
  cases count with
  | zero => rfl
  | succ count =>
      rw [after?, step_eq_none_iff.mpr outside] at reached
      contradiction

/-- A run ends at its limit or outside of the program, and it has made the steps
that it counts. -/
theorem run_spec (machine : Machine) (limit : Nat) :
    machine.after? (machine.run limit).2 = some (machine.run limit).1 ∧ (machine.run limit).2 ≤ limit ∧
      ((machine.run limit).2 < limit → (machine.run limit).1.Outside) := by
  induction limit generalizing machine with
  | zero => exact ⟨rfl, Nat.le_refl 0, fun below => absurd below (Nat.lt_irrefl 0)⟩
  | succ limit ih =>
      rcases outside_or_step machine with outside | ⟨next, stepped⟩
      · have stays : machine.run (limit + 1) = (machine, 0) := by
          rw [run_succ, step_eq_none_iff.mpr outside]
        rw [stays]
        exact ⟨rfl, Nat.zero_le _, fun _ => outside⟩
      · obtain ⟨reached, within, ended⟩ := ih next
        have goes : machine.run (limit + 1) = ((next.run limit).1, (next.run limit).2 + 1) := by
          rw [run_succ, stepped]
        rw [goes]
        refine ⟨?_, by omega, ?_⟩
        · rw [after?_succ stepped, reached]
        · intro below
          apply ended
          simp only at below
          omega

theorem inside_of_after? (reached : machine.after? count = some last) {earlier : Nat} (before : earlier < count) :
    ∃ middle, machine.after? earlier = some middle ∧ ¬ middle.Outside := by
  obtain ⟨rest, rfl⟩ := Nat.exists_eq_add_of_lt before
  rw [Nat.add_assoc, after?_add] at reached
  obtain ⟨middle, here, onwards⟩ := Option.bind_eq_some_iff.mp reached
  refine ⟨middle, here, fun outside => ?_⟩
  have none := count_eq_zero_of_outside outside onwards
  omega

theorem leavesAfter_iff : machine.LeavesAfter count ↔ ∃ last, machine.after? count = some last ∧ last.Outside := by
  constructor
  · exact LeavesAfter.outside
  · intro ⟨last, reached, outside⟩
    exact ⟨⟨last, reached, outside⟩, fun earlier before => inside_of_after? reached before⟩

/-- There is one way to meet the specification of a run. -/
theorem run_eq (reached : machine.after? count = some last) (within : count ≤ limit)
    (ended : count < limit → last.Outside) : machine.run limit = (last, count) := by
  obtain ⟨stopped, bounded, left⟩ := run_spec machine limit
  have same : (machine.run limit).2 = count := by
    rcases Nat.lt_trichotomy (machine.run limit).2 count with fewer | same | more
    · obtain ⟨middle, here, inside⟩ := inside_of_after? reached fewer
      rw [stopped] at here
      cases here
      exact absurd (left (by omega)) inside
    · exact same
    · obtain ⟨middle, here, inside⟩ := inside_of_after? stopped more
      rw [reached] at here
      cases here
      exact absurd (ended (by omega)) inside
  rw [same, reached] at stopped
  exact Prod.ext (Option.some.inj stopped).symm same

theorem run_add (machine : Machine) (first second : Nat) : machine.run (first + second) =
    (((machine.run first).1.run second).1, (machine.run first).2 + ((machine.run first).1.run second).2) := by
  obtain ⟨reached, within, ended⟩ := run_spec machine first
  obtain ⟨onwards, bounded, left⟩ := run_spec (machine.run first).1 second
  apply run_eq
  · rw [after?_add, reached, Option.bind_some, onwards]
  · omega
  · intro below
    by_cases short : ((machine.run first).1.run second).2 < second
    · exact left short
    · -- The first run has left the program already, so the second one has not moved.
      have outside := ended (by omega)
      rw [count_eq_zero_of_outside outside onwards, after?_zero] at onwards
      rw [← Option.some.inj onwards]
      exact outside

theorem count_run_iff : ((machine.run limit).2 = count ∧ count < limit) ↔ (count < limit ∧ machine.LeavesAfter count) := by
  rw [leavesAfter_iff]
  constructor
  · intro ⟨counted, below⟩
    obtain ⟨reached, _, ended⟩ := run_spec machine limit
    rw [counted] at reached ended
    exact ⟨below, _, reached, ended below⟩
  · intro ⟨below, last, reached, outside⟩
    rw [run_eq reached (Nat.le_of_lt below) fun _ => outside]
    exact ⟨rfl, below⟩

end Hack.Machine
