import Hack.Proofs.Assembly.TwoPass
import Hack.Proofs.Machine.Denotation

namespace Hack

open Assembly

/-- A machine comes to be in a state after some number of steps. -/
def Machine.Reaches (machine target : Machine) : Prop :=
  ∃ count, machine.run count = (target, count)

/-- All of a machine that instructions change, but for the program counter. -/
structure Registers where
  memory : Memory
  a : Word
  d : Word

def Registers.at (registers : Registers) (program : Array Word) (pc : Nat) : Machine :=
  ⟨registers.memory, program, registers.a, registers.d, pc⟩

namespace Assembly

def Statement.act (resolve : String → Word) : Statement → Registers → Registers
  | .label _, registers => registers
  | .instruction (.address (.literal value)), ⟨memory, _, d⟩ => ⟨memory, BitVec.ofNat 16 value, d⟩
  | .instruction (.address (.symbol name)), ⟨memory, _, d⟩ => ⟨memory, resolve name, d⟩
  | .instruction (.compute dest comp _), ⟨memory, a, d⟩ =>
      let out := comp.value d a (memory.read a)
      ⟨if dest.writesM then memory.write a out else memory, if dest.writesA then out else a,
        if dest.writesD then out else d⟩

def perform (resolve : String → Word) (body : List Statement) (registers : Registers) : Registers :=
  body.foldl (fun registers statement => statement.act resolve registers) registers

def Statement.Straight : Statement → Prop
  | .instruction (.compute _ _ jump) => jump = .never
  | _ => True

/-- A piece of code is part of a program, behind `position` instructions. -/
def Stands (statements : List Statement) (position : Nat) (body : List Statement) : Prop :=
  ∃ before after, statements = before ++ body ++ after ∧ (code before).length = position

/-- What a name loads. -/
def wordOf (statements : List Statement) (name : String) : Word :=
  BitVec.ofNat 16 (addressOf statements name)

variable {statements body rest first second : List Statement} {statement : Statement} {position address : Nat}
variable {name : String} {words : List Word} {resolve : String → Word} {registers : Registers}

@[simp] theorem perform_nil : perform resolve [] registers = registers := rfl

@[simp] theorem perform_cons :
    perform resolve (statement :: rest) registers = perform resolve rest (statement.act resolve registers) := rfl

@[simp] theorem perform_append :
    perform resolve (first ++ second) registers = perform resolve second (perform resolve first registers) :=
  List.foldl_append

theorem Stands.left (stands : Stands statements position (first ++ second)) :
    Stands statements position first := by
  obtain ⟨before, after, rfl, place⟩ := stands
  exact ⟨before, second ++ after, by simp, place⟩

theorem Stands.right (stands : Stands statements position (first ++ second)) :
    Stands statements (position + (code first).length) second := by
  obtain ⟨before, after, rfl, rfl⟩ := stands
  exact ⟨before ++ first, after, by simp, by simp⟩

theorem Stands.tail (stands : Stands statements position (statement :: rest)) :
    Stands statements (position + (code [statement]).length) rest := by
  rw [← List.singleton_append] at stands
  exact stands.right

theorem Stands.mem (stands : Stands statements position body) : ∀ own ∈ code body, own ∈ code statements := by
  obtain ⟨before, after, rfl, _⟩ := stands
  intro own member
  simp [member]

theorem Stands.uses {own : Instruction} (stands : Stands statements position body)
    (member : .instruction own ∈ body) : own ∈ code statements :=
  stands.mem own (List.mem_filterMap.mpr ⟨_, member, rfl⟩)

theorem Stands.label (linked : Linked statements words)
    (stands : Stands statements position (.label name :: rest)) : addressOf statements name = position := by
  obtain ⟨before, after, same, rfl⟩ := stands
  have split : statements = before ++ .label name :: (rest ++ after) := by simp [same]
  exact linked.addressOf_label split

theorem wordOf_predefined (predefined : predefined.lookup name = some address) :
    wordOf statements name = BitVec.ofNat 16 address := by
  simp [wordOf, addressOf, fixedAddress?, predefined]

theorem toNat_wordOf (linked : Linked statements words)
    (used : .address (.symbol name) ∈ code statements) : (wordOf statements name).toNat = addressOf statements name :=
  toNat_word (linked.fits _ used)

end Assembly

variable {machine middle next target : Machine} {registers : Registers} {program : Array Word} {pc : Nat}
variable {statements body rest : List Statement} {statement : Statement} {instruction : Instruction}

namespace Machine.Reaches

theorem refl (machine : Machine) : machine.Reaches machine := ⟨0, rfl⟩

theorem step (first : machine.step = some next) (others : next.Reaches target) : machine.Reaches target := by
  obtain ⟨count, ran⟩ := others
  refine ⟨count + 1, ?_⟩
  rw [run_succ, first]
  simp only [ran]

/-- What holds at the end and is kept by a step backwards holds all the way. -/
theorem backwards {motive : Machine → Prop} (reached : machine.Reaches target) (ends : motive target)
    (back : ∀ before next, before.step = some next → motive next → motive before) : motive machine := by
  obtain ⟨count, ran⟩ := reached
  induction count generalizing machine with
  | zero =>
      have same : machine = target := congrArg Prod.fst ran
      rw [same]
      exact ends
  | succ count ih =>
      rw [run_succ] at ran
      cases stepped : machine.step with
      | none =>
          rw [stepped] at ran
          have counts := congrArg Prod.snd ran
          contradiction
      | some next =>
          rw [stepped] at ran
          obtain ⟨state, steps⟩ := Prod.mk.inj ran
          have fewer : (next.run count).2 = count := by simpa using steps
          exact back machine next stepped (ih (Prod.ext state fewer))

theorem trans (first : machine.Reaches middle) (second : middle.Reaches target) : machine.Reaches target :=
  first.backwards (motive := fun before => before.Reaches target) second fun _ _ stepped others => step stepped others

/-- Nothing writes to the instruction memory. -/
theorem program_eq (reached : machine.Reaches target) : target.program = machine.program := by
  refine reached.backwards (motive := fun before => target.program = before.program) rfl ?_
  intro before next stepped same
  rw [step_eq_map] at stepped
  obtain ⟨word, _, rfl⟩ := Option.map_eq_some_iff.mp stepped
  rw [same, execute_program]

end Machine.Reaches

theorem fetch_of_stands (linked : Linked statements program.toList)
    (stands : Stands statements pc (.instruction instruction :: rest)) :
    program[pc]? = some (instruction.word statements) := by
  obtain ⟨before, after, same, rfl⟩ := stands
  have split : code statements = code before ++ instruction :: code (rest ++ after) := by simp [same]
  rw [← Array.getElem?_toList, linked.words_eq, split, List.map_append, List.getElem?_append_right (by simp)]
  simp

theorem step_of_stands (linked : Linked statements program.toList)
    (stands : Stands statements pc (.instruction instruction :: rest)) :
    (registers.at program pc).step =
      some ((registers.at program pc).execute (instruction.word statements)) := by
  rw [Machine.step, Machine.fetch?]
  have fetched : (registers.at program pc).program[(registers.at program pc).pc]? =
      some (instruction.word statements) := fetch_of_stands linked stands
  rw [fetched]

theorem word_compute (dest : Dest) (comp : Comp) (jump : Jump) :
    (Instruction.compute dest comp jump).word statements = computeWord dest comp jump := by
  rw [Instruction.word, Instruction.value, ← toNat_computeWord, BitVec.ofNat_toNat, BitVec.setWidth_eq]

/-- Addresses leave the leading bit of their words free. -/
theorem loads_of_fits {operand : Operand} (fits : (Instruction.address operand).Fits statements) :
    ((Instruction.address operand).word statements).getLsbD 15 = false := by
  have small : ((Instruction.address operand).word statements).toNat < 2 ^ 15 := by
    rw [toNat_word fits]
    have within : (Instruction.address operand).value statements ≤ 32767 := fits
    omega
  exact Nat.testBit_lt_two_pow small

theorem step_straight (linked : Linked statements program.toList)
    (stands : Stands statements pc (.instruction instruction :: rest))
    (straight : (Statement.instruction instruction).Straight) :
    (registers.at program pc).step =
      some (((Statement.instruction instruction).act (wordOf statements) registers).at program (pc + 1)) := by
  rw [step_of_stands linked stands]
  obtain ⟨memory, a, d⟩ := registers
  cases instruction with
  | address operand =>
      have fits := linked.fits _ (stands.mem (.address operand) List.mem_cons_self)
      rw [Registers.at, execute_address (loads_of_fits fits)]
      cases operand <;> rfl
  | compute dest comp jump =>
      have never : jump = .never := straight
      subst never
      rw [word_compute, Registers.at, execute_compute]
      rfl

theorem step_jump {comp : Comp} {jump : Jump} (linked : Linked statements program.toList)
    (stands : Stands statements pc (.instruction (.compute .nowhere comp jump) :: rest)) :
    (registers.at program pc).step =
      some (registers.at program
        (if jump.taken (comp.value registers.d registers.a (registers.memory.read registers.a)) then
          registers.a.toNat else pc + 1)) := by
  rw [step_of_stands linked stands, word_compute]
  obtain ⟨memory, a, d⟩ := registers
  rw [Registers.at, execute_compute]
  rfl

theorem reaches_perform (linked : Linked statements program.toList) (stands : Stands statements pc body)
    (straight : ∀ statement ∈ body, statement.Straight) :
    (registers.at program pc).Reaches
      ((perform (wordOf statements) body registers).at program (pc + (code body).length)) := by
  induction body generalizing pc registers with
  | nil => exact .refl _
  | cons statement rest ih =>
      obtain ⟨one, more⟩ := List.forall_mem_cons.mp straight
      have others := stands.tail
      cases statement with
      | label name => exact ih others more
      | instruction instruction =>
          have steps : pc + (code (.instruction instruction :: rest)).length =
              pc + (code [.instruction instruction]).length + (code rest).length := by
            simp only [code_instruction, code_nil, List.length_cons, List.length_nil]
            omega
          rw [steps]
          exact .step (step_straight linked stands one) (ih others more)

end Hack
