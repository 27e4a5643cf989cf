import Hack.Proofs.Assembly.Resolution
import Hack.Proofs.Machine.Denotation

namespace Hack

namespace Assembly

/-- The value of one character of an expression. -/
def atom? (d a m : Word) : Char → Option Word
  | 'D' => some d
  | 'A' => some a
  | 'M' => some m
  | '0' => some 0
  | '1' => some 1
  | _ => none

def binary? : Char → Option (Word → Word → Word)
  | '+' => some (· + ·)
  | '-' => some (· - ·)
  | '&' => some (· &&& ·)
  | '|' => some (· ||| ·)
  | _ => none

/-- The value of an expression as it is written: one operand, alone or behind a
sign, or two operands with a sign between them. -/
def evaluate? (d a m : Word) : List Char → Option Word
  | [x] => atom? d a m x
  | ['-', x] => (atom? d a m x).map fun value => -value
  | ['!', x] => (atom? d a m x).map fun value => ~~~value
  | [x, sign, y] => do return (← binary? sign) (← atom? d a m x) (← atom? d a m y)
  | _ => none

/-- The comparison with zero that the mnemonic of a jump names. -/
def condition (mnemonic : String) (value : Int) : Bool :=
  match mnemonic with
  | "JGT" => 0 < value
  | "JEQ" => value = 0
  | "JGE" => 0 ≤ value
  | "JLT" => value < 0
  | "JNE" => value ≠ 0
  | "JLE" => value ≤ 0
  | "JMP" => true
  | _ => false

/-- What an operand stands for once the table knows the names of a program. -/
def Operand.address? (table : SymbolTable) : Operand → Option Nat
  | .literal value => some value
  | .symbol name => table.find? name

end Assembly

open Assembly

variable {d a m : Word} {table next : SymbolTable} {word : Word} {machine : Machine}

theorem evaluate?_mnemonic (comp : Comp) (d a m : Word) :
    evaluate? d a m comp.mnemonic.toList = some (comp.value d a m) := by
  cases comp with
  | zero | one | minusOne | d | notD | negD | incD | decD => rfl
  | load y | not y | neg y | inc y | dec y | add y | sub y | subFrom y | and y | or y => cases y <;> rfl

theorem mem_dest_mnemonic (dest : Dest) :
    ('A' ∈ dest.mnemonic.toList ↔ dest.writesA = true) ∧ ('D' ∈ dest.mnemonic.toList ↔ dest.writesD = true) ∧
      ('M' ∈ dest.mnemonic.toList ↔ dest.writesM = true) := by
  have all : ∀ dest ∈ Dest.all, ('A' ∈ dest.mnemonic.toList ↔ dest.writesA = true) ∧
      ('D' ∈ dest.mnemonic.toList ↔ dest.writesD = true) ∧
      ('M' ∈ dest.mnemonic.toList ↔ dest.writesM = true) := by decide
  exact all dest (Dest.mem_all dest)

theorem taken_eq_condition (jump : Jump) (out : Word) : jump.taken out = condition jump.mnemonic out.toInt := by
  have zero : (out == 0) = decide (out.toInt = 0) := by
    rw [Bool.eq_iff_iff, beq_iff_eq, decide_eq_true_iff, ← BitVec.toInt_inj]
    rfl
  have nonzero : (out != 0) = decide (out.toInt ≠ 0) := by
    rw [bne, zero, decide_not]
  obtain ⟨negative, equal, positive⟩ := jump
  rw [Jump.taken, zero, nonzero, BitVec.msb_eq_toInt]
  generalize out.toInt = value
  cases negative <;> cases equal <;> cases positive
  all_goals
    simp only [Jump.mnemonic, condition, Bool.false_and, Bool.true_and, Bool.or_false, Bool.false_or]
  all_goals grind

theorem toNat_ofNat_of_le {address : Nat} (within : address ≤ maxAddress) :
    (BitVec.ofNat 16 address).toNat = address := by
  have bound : address < 2 ^ 16 := Nat.lt_of_le_of_lt within (by decide)
  rw [BitVec.toNat_ofNat, Nat.mod_eq_of_lt bound]

theorem toNat_encode {operand : Operand} (arises : table.Arises)
    (encoded : (Instruction.address operand).encode table = .ok (word, next)) :
    word.toNat ≤ maxAddress ∧ operand.address? next = some word.toNat := by
  cases operand with
  | literal value =>
      simp only [Instruction.encode] at encoded
      split at encoded
      · contradiction
      · next within =>
          cases encoded
          have fits := Nat.le_of_not_lt within
          rw [toNat_ofNat_of_le fits]
          exact ⟨fits, rfl⟩
  | symbol name =>
      obtain ⟨⟨address, after⟩, resolved, finished⟩ := steps_of_bind encoded
      cases finished
      have found := SymbolTable.find?_resolve resolved
      have fits := (arises.resolve resolved).le_maxAddress found
      rw [toNat_ofNat_of_le fits]
      exact ⟨fits, found⟩

theorem loads_of_le (within : word.toNat ≤ maxAddress) : word.getLsbD 15 = false :=
  Nat.testBit_lt_two_pow (Nat.lt_of_le_of_lt within (by decide))

/-- One step of the machine does what the instruction says that has been
assembled: a compute instruction puts the value of its expression into the cells
that its destination lists and jumps, if the value meets the condition, to where
A pointed before; an address instruction loads its address. -/
theorem step_encoded (machine : Machine) (table : SymbolTable) :
    (∀ dest comp jump, ∃ word, (Instruction.compute dest comp jump).encode table = .ok (word, table) ∧
      (machine.fetch? = some word →
        ∃ value, evaluate? machine.d machine.a (machine.memory.read machine.a) comp.mnemonic.toList = some value ∧
          machine.step = some
            { memory := if 'M' ∈ dest.mnemonic.toList then machine.memory.write machine.a value else machine.memory
              program := machine.program
              a := if 'A' ∈ dest.mnemonic.toList then value else machine.a
              d := if 'D' ∈ dest.mnemonic.toList then value else machine.d
              pc := if condition jump.mnemonic value.toInt then machine.a.toNat else machine.pc + 1 })) ∧
    ∀ operand word next, table.Arises → (Instruction.address operand).encode table = .ok (word, next) →
      word.toNat ≤ maxAddress ∧ operand.address? next = some word.toNat ∧
        (machine.fetch? = some word → machine.step = some { machine with a := word, pc := machine.pc + 1 }) := by
  obtain ⟨memory, program, a, d, pc⟩ := machine
  refine ⟨fun dest comp jump => ⟨computeWord dest comp jump, rfl, fun fetched => ?_⟩, ?_⟩
  · obtain ⟨toA, toD, toM⟩ := mem_dest_mnemonic dest
    refine ⟨comp.value d a (memory.read a), evaluate?_mnemonic comp d a (memory.read a), ?_⟩
    rw [Machine.step, fetched]
    simp only [execute_compute, taken_eq_condition, toA, toD, toM]
  · intro operand word next arises encoded
    obtain ⟨within, denotes⟩ := toNat_encode arises encoded
    refine ⟨within, denotes, fun fetched => ?_⟩
    rw [Machine.step, fetched]
    simp only [execute_address (loads_of_le within)]

/-- The cell that is decremented is the one that A pointed to, although A is
overwritten by the same instruction. -/
theorem step_encoded_decrement :
    (Machine.mk .zeroed #[computeWord .am (.dec .m) .less] 7 0 0).step =
        some ⟨Memory.zeroed.write 7 (-1), #[computeWord .am (.dec .m) .less], -1, 0, 7⟩ ∧
      (Machine.mk .zeroed #[16384] 7 0 0).step = some ⟨.zeroed, #[16384], 16384, 0, 1⟩ := by
  constructor
  · obtain ⟨word, encoded, steps⟩ :=
      (step_encoded ⟨.zeroed, #[computeWord .am (.dec .m) .less], 7, 0, 0⟩ .initial).1 .am (.dec .m) .less
    cases encoded
    obtain ⟨value, denotes, stepped⟩ := steps rfl
    have minusOne : evaluate? 0 7 (Memory.zeroed.read 7) (Comp.dec .m).mnemonic.toList = some (-1) := by
      rw [Memory.read_zeroed]
      rfl
    cases Option.some.inj (denotes.symm.trans minusOne)
    exact stepped
  · have screen : (Instruction.address (.symbol "SCREEN")).encode .initial = .ok (16384, .initial) := by
      have known : SymbolTable.initial.find? "SCREEN" = some 16384 := find?_initial
      rw [Instruction.encode, SymbolTable.resolve_of_find known]
      rfl
    obtain ⟨_, _, steps⟩ := (step_encoded ⟨.zeroed, #[16384], 7, 0, 0⟩ .initial).2 _ _ _ .initial screen
    exact steps rfl

end Hack
