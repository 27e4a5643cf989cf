import Hack.Proofs.Machine.Runs
import Hack.Proofs.Sequence

namespace Hack

/-! Runs with every access checked.

The machine reads and writes its memory at words, so that it cannot miss.  Here
the two memories are arrays of any size, an access behind the end of either one
fails, and nothing is read that an instruction does not ask for.  With a cell
for every word no access fails, whatever the program and the state.
-/

/-- A machine whose memories may be too small for it. -/
structure BareMachine where
  ram : Array Word
  rom : Array Word
  a : Word
  d : Word
  pc : Nat

/-- An access behind the end of a memory. -/
inductive Overrun where
  | rom (index : Nat)
  | ram (index : Nat)
deriving DecidableEq, Repr

namespace BareMachine

def fetch (machine : BareMachine) : Except Overrun Word :=
  match machine.rom[machine.pc]? with
  | some word => .ok word
  | none => .error (.rom machine.pc)

def load (machine : BareMachine) (address : Nat) : Except Overrun Word :=
  match machine.ram[address]? with
  | some value => .ok value
  | none => .error (.ram address)

def store (machine : BareMachine) (address : Nat) (value : Word) : Except Overrun (Array Word) :=
  if inside : address < machine.ram.size then .ok (machine.ram.set address value inside)
  else .error (.ram address)

/-- The second input of the arithmetic unit.  Only a word that asks for it makes
the machine look at its memory. -/
def input (machine : BareMachine) (word : Word) : Except Overrun Word :=
  if word.getLsbD 12 then machine.load machine.a.toNat else .ok machine.a

def output (machine : BareMachine) (word out : Word) : Except Overrun (Array Word) :=
  if word.getLsbD 3 then machine.store machine.a.toNat out else .ok machine.ram

def compute (machine : BareMachine) (word : Word) : Except Overrun BareMachine := do
  let y ← machine.input word
  let out := alu machine.d y (word.extractLsb' 6 6)
  let ram ← machine.output word out
  let jumps := (word.getLsbD 2 && out.msb) || (word.getLsbD 1 && out == 0) ||
    (word.getLsbD 0 && !out.msb && out != 0)
  return {
    ram := ram
    rom := machine.rom
    a := if word.getLsbD 5 then out else machine.a
    d := if word.getLsbD 4 then out else machine.d
    pc := if jumps then machine.a.toNat else machine.pc + 1 }

def step (machine : BareMachine) : Except Overrun BareMachine := do
  let word ← machine.fetch
  if word.getLsbD 15 then machine.compute word
  else return { machine with a := word, pc := machine.pc + 1 }

def runCounting (executed : Nat) (machine : BareMachine) : Nat → Except Overrun (BareMachine × Nat)
  | 0 => .ok (machine, executed)
  | limit + 1 =>
      if machine.rom.size ≤ machine.pc then .ok (machine, executed)
      else do runCounting (executed + 1) (← machine.step) limit

def run (machine : BareMachine) (limit : Nat) : Except Overrun (BareMachine × Nat) :=
  machine.runCounting 0 limit

end BareMachine

namespace Machine

def bare (machine : Machine) : BareMachine :=
  ⟨machine.memory.cells.toArray, machine.program, machine.a, machine.d, machine.pc⟩

variable {machine next : Machine} {word : Word}

theorem size_bare (machine : Machine) : machine.bare.ram.size = 65536 :=
  machine.memory.cells.size_toArray

theorem toNat_lt_size_bare (machine : Machine) (address : Word) : address.toNat < machine.bare.ram.size := by
  rw [size_bare]
  exact address.isLt

theorem load_bare (machine : Machine) (address : Word) :
    machine.bare.load address.toNat = .ok (machine.memory.read address) := by
  have found : machine.bare.ram[address.toNat]? = some (machine.memory.read address) :=
    Array.getElem?_eq_getElem (toNat_lt_size_bare machine address)
  rw [BareMachine.load, found]

theorem store_bare (machine : Machine) (address value : Word) :
    machine.bare.store address.toNat value = .ok (machine.memory.write address value).cells.toArray := by
  rw [BareMachine.store, dif_pos (toNat_lt_size_bare machine address)]
  rfl

theorem input_bare (machine : Machine) (word : Word) :
    machine.bare.input word = .ok (if word.getLsbD 12 then machine.memory.read machine.a else machine.a) := by
  have loads : machine.bare.load machine.bare.a.toNat = .ok (machine.memory.read machine.a) := load_bare machine machine.a
  rw [BareMachine.input, loads]
  split <;> rfl

theorem output_bare (machine : Machine) (word out : Word) : machine.bare.output word out =
    .ok (if word.getLsbD 3 then machine.memory.write machine.a out else machine.memory).cells.toArray := by
  have stores : machine.bare.store machine.bare.a.toNat out = .ok (machine.memory.write machine.a out).cells.toArray :=
    store_bare machine machine.a out
  rw [BareMachine.output, stores]
  split <;> rfl

theorem compute_bare (computes : word.getLsbD 15 = true) : machine.bare.compute word = .ok (machine.execute word).bare := by
  rw [BareMachine.compute, input_bare, ok_bind, execute, if_pos computes]
  simp only [output_bare, ok_bind]
  rfl

/-- Wherever the registers point, one step makes no access that fails. -/
theorem step_bare (stepped : machine.step = some next) : machine.bare.step = .ok next.bare := by
  rw [step_eq_map] at stepped
  obtain ⟨word, fetched, rfl⟩ := Option.map_eq_some_iff.mp stepped
  have fetches : machine.bare.fetch = .ok word := by
    have found : machine.bare.rom[machine.bare.pc]? = some word := fetched
    rw [BareMachine.fetch, found]
  rw [BareMachine.step, fetches, ok_bind]
  cases computes : word.getLsbD 15 with
  | true => rw [if_pos rfl, compute_bare computes]
  | false =>
      rw [if_neg (by decide), execute, computes]
      rfl

theorem runCounting_bare (executed : Nat) (machine : Machine) (limit : Nat) :
    machine.bare.runCounting executed limit = .ok ((machine.run limit).1.bare, executed + (machine.run limit).2) := by
  induction limit generalizing machine executed with
  | zero => rfl
  | succ limit ih =>
      rcases outside_or_step machine with outside | ⟨next, stepped⟩
      · have ended : machine.bare.rom.size ≤ machine.bare.pc := outside
        rw [BareMachine.runCounting, if_pos ended, run_succ, step_eq_none_iff.mpr outside]
        rfl
      · have goesOn : ¬ machine.bare.rom.size ≤ machine.bare.pc := not_outside_of_step stepped
        rw [BareMachine.runCounting, if_neg goesOn, step_bare stepped, ok_bind, ih, run_succ, stepped]
        simp only
        rw [Nat.add_assoc, Nat.add_comm 1]

/-- A run can be interrupted anywhere: its two parts lead to the same state, and
their counts add up.  It stops short of its limit just where the program counter
first leaves the program, and no access of it fails. -/
theorem runs_compose_within_bounds (machine : Machine) :
    (∀ first second, machine.run (first + second) =
      (((machine.run first).1.run second).1, (machine.run first).2 + ((machine.run first).1.run second).2)) ∧
    (∀ limit, machine.after? (machine.run limit).2 = some (machine.run limit).1 ∧ (machine.run limit).2 ≤ limit) ∧
    (∀ limit count, ((machine.run limit).2 = count ∧ count < limit) ↔ (count < limit ∧ machine.LeavesAfter count)) ∧
    machine.bare.ram.size = 65536 ∧
    ∀ limit, machine.bare.run limit = .ok ((machine.run limit).1.bare, (machine.run limit).2) := by
  refine ⟨run_add machine, ?_, ?_, size_bare machine, ?_⟩
  · intro limit
    obtain ⟨reached, within, _⟩ := run_spec machine limit
    exact ⟨reached, within⟩
  · intro limit count
    exact count_run_iff
  · intro limit
    rw [BareMachine.run, runCounting_bare, Nat.zero_add]

/-- With fewer cells the same accesses fail. -/
example : (BareMachine.mk #[7, 7] #[Assembly.computeWord .d (.load .m) .never] 2 0 0).run 5 = .error (.ram 2) := rfl

end Machine

end Hack
