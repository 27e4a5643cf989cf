import Hack.Assembly.Listing

namespace Hack

/-! The machine that runs assembled programs.

It has an instruction memory that nothing writes to, a data memory of 65536
cells, the registers A and D, and a program counter.  A step is undefined where
the program counter has left the program.
-/

/-- The data memory.  Every word is the address of a cell. -/
structure Memory where
  cells : Vector Word 65536

namespace Memory

def zeroed : Memory := ⟨Vector.replicate 65536 0⟩

def read (memory : Memory) (address : Word) : Word :=
  memory.cells[address.toNat]

def write (memory : Memory) (address value : Word) : Memory :=
  ⟨memory.cells.set address.toNat value⟩

variable {memory : Memory} {address other value : Word}

@[simp] theorem read_zeroed : zeroed.read address = 0 := by
  simp [zeroed, read]

@[simp] theorem read_write_self : (memory.write address value).read address = value := by
  simp [read, write]

theorem read_write_of_ne (apart : address ≠ other) :
    (memory.write address value).read other = memory.read other := by
  have cells : address.toNat ≠ other.toNat := fun same => apart (BitVec.eq_of_toNat_eq same)
  simp [read, write, Vector.getElem_set_ne, cells]

end Memory

/-- The output of the arithmetic unit.  From high to low the control bits
clear x, negate x, clear y, negate y, add instead of conjoining, and negate
the output. -/
def alu (x y : Word) (control : BitVec 6) : Word :=
  let x := if control.getLsbD 5 then 0 else x
  let x := if control.getLsbD 4 then ~~~x else x
  let y := if control.getLsbD 3 then 0 else y
  let y := if control.getLsbD 2 then ~~~y else y
  let out := if control.getLsbD 1 then x + y else x &&& y
  if control.getLsbD 0 then ~~~out else out

structure Machine where
  memory : Memory
  program : Array Word
  a : Word
  d : Word
  pc : Nat

namespace Machine

/-- A machine before the first step of a program. -/
def boot (program : Array Word) : Machine where
  memory := .zeroed
  program := program
  a := 0
  d := 0
  pc := 0

/-- A machine with an assembly program in its instruction memory. -/
def load (source : String) : Except Error Machine :=
  (Assembly.listing source).map fun entries => boot (entries.map Assembly.Entry.word).toArray

/-- Runs one instruction.  A compute instruction writes and jumps to where A
pointed before it. -/
def execute (word : Word) : Machine → Machine
  | ⟨memory, program, a, d, pc⟩ =>
      if word.getLsbD 15 then
        let y := if word.getLsbD 12 then memory.read a else a
        let out := alu d y (word.extractLsb' 6 6)
        let jumps := (word.getLsbD 2 && out.msb) || (word.getLsbD 1 && out == 0) ||
          (word.getLsbD 0 && !out.msb && out != 0)
        { memory := if word.getLsbD 3 then memory.write a out else memory
          program := program
          a := if word.getLsbD 5 then out else a
          d := if word.getLsbD 4 then out else d
          pc := if jumps then a.toNat else pc + 1 }
      else
        { memory := memory, program := program, a := word, d := d, pc := pc + 1 }

/-- The instruction that the program counter points to. -/
def fetch? (machine : Machine) : Option Word :=
  machine.program[machine.pc]?

/-- One step, if the program counter is inside the program. -/
def step (machine : Machine) : Option Machine :=
  match machine.fetch? with
  | some word => some (machine.execute word)
  | none => none

/-- Steps until the program counter leaves the program or `limit` steps have
been made, and counts the steps on from `executed`. -/
def runCounting (executed : Nat) (machine : Machine) : Nat → Machine × Nat
  | 0 => (machine, executed)
  | limit + 1 =>
      match machine.fetch? with
      | none => (machine, executed)
      | some word => runCounting (executed + 1) (machine.execute word) limit

/-- The machine after at most `limit` steps, and how many were made. -/
def run (machine : Machine) (limit : Nat) : Machine × Nat :=
  machine.runCounting 0 limit

variable {machine : Machine} {executed limit : Nat}

theorem step_eq_map : machine.step = machine.fetch?.map fun word => machine.execute word := by
  unfold step
  cases machine.fetch? <;> rfl

theorem execute_program (word : Word) : (machine.execute word).program = machine.program := by
  simp only [execute]
  split <;> rfl

theorem runCounting_eq (executed : Nat) :
    machine.runCounting executed limit =
      ((machine.run limit).1, executed + (machine.run limit).2) := by
  unfold run
  induction limit generalizing machine executed with
  | zero => simp [runCounting]
  | succ limit ih =>
      simp only [runCounting]
      cases machine.fetch? with
      | none => simp
      | some word =>
          simp only
          rw [ih (executed + 1), ih (0 + 1)]
          simp only [Prod.mk.injEq, true_and]
          omega

theorem run_succ :
    machine.run (limit + 1) =
      match machine.step with
      | none => (machine, 0)
      | some next => ((next.run limit).1, (next.run limit).2 + 1) := by
  rw [run, runCounting, step]
  cases machine.fetch? with
  | none => rfl
  | some word =>
      simp only
      rw [runCounting_eq, Nat.add_comm]

end Machine

end Hack
