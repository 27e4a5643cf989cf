import Mathlib.Tactic.Ring
import Mathlib.Data.BitVec
import Hack.Machine

namespace Hack

namespace Assembly

def Input.select (a m : Word) : Input → Word
  | .a => a
  | .m => m

/-- What an operation computes from register D, register A and the cell that A
points to. -/
def Comp.value (d a m : Word) : Comp → Word
  | .zero => 0
  | .one => 1
  | .minusOne => -1
  | .d => d
  | .notD => ~~~d
  | .negD => -d
  | .incD => d + 1
  | .decD => d - 1
  | .load y => y.select a m
  | .not y => ~~~y.select a m
  | .neg y => -y.select a m
  | .inc y => y.select a m + 1
  | .dec y => y.select a m - 1
  | .add y => d + y.select a m
  | .sub y => d - y.select a m
  | .subFrom y => y.select a m - d
  | .and y => d &&& y.select a m
  | .or y => d ||| y.select a m

/-- Whether a jump is taken, by the sign of the output. -/
def Jump.taken (jump : Jump) (out : Word) : Bool :=
  (jump.ifNegative && out.msb) || (jump.ifZero && out == 0) || (jump.ifPositive && !out.msb && out != 0)

end Assembly

open Assembly

variable {d a m x y : Word} {comp : Comp} {memory : Memory} {program : Array Word} {pc : Nat}

theorem not_eq_neg_sub_one (x : Word) : ~~~x = -x - 1 := by
  rw [BitVec.neg_eq_not_add]
  exact (add_sub_cancel_right _ _).symm

theorem and_allOnes (x : Word) : x &&& 65535#16 = x := BitVec.and_allOnes

theorem add_allOnes (x : Word) : x + 65535#16 = x - 1#16 := (sub_eq_add_neg x 1).symm

theorem not_sub_one (x : Word) : ~~~(x - 1#16) = -x := by
  rw [not_eq_neg_sub_one]
  exact show -(x - 1) - 1 = -x by ring

theorem not_not_add (x y : Word) : ~~~(~~~x + y) = x - y := by
  rw [not_eq_neg_sub_one, not_eq_neg_sub_one]
  ring

theorem not_not_and_not (x y : Word) : ~~~(~~~x &&& ~~~y) = x ||| y := by
  rw [BitVec.not_and, BitVec.not_not, BitVec.not_not]

/-- The control bits of an operation make the arithmetic unit compute it. -/
theorem alu_control (comp : Comp) (d a m : Word) :
    alu d (comp.input.select a m) comp.control = comp.value d a m := by
  cases comp with
  | zero | one | minusOne => simp [alu, Comp.control, Comp.value]
  | d | notD => simp [alu, Comp.control, Comp.value, and_allOnes]
  | negD | decD => simp [alu, Comp.control, Comp.value, add_allOnes, not_sub_one]
  | incD =>
      have next : d - 65535#16 = d + 1#16 := sub_neg_eq_add d 1
      simp [alu, Comp.control, Comp.value, not_not_add, next]
  | load y | not y => simp [alu, Comp.control, Comp.value, Comp.input, BitVec.and_comm 65535#16, and_allOnes]
  | neg y | dec y =>
      simp [alu, Comp.control, Comp.value, Comp.input, BitVec.add_comm 65535#16, add_allOnes, not_sub_one]
  | inc y =>
      have next : y.select a m - 65535#16 = y.select a m + 1#16 := sub_neg_eq_add _ 1
      simp [alu, Comp.control, Comp.value, Comp.input, BitVec.add_comm 65535#16, not_not_add, next]
  | sub y => simp [alu, Comp.control, Comp.value, Comp.input, not_not_add]
  | subFrom y => simp [alu, Comp.control, Comp.value, Comp.input, BitVec.add_comm d, not_not_add]
  | add y | and y => simp [alu, Comp.control, Comp.value, Comp.input]
  | or y => simp [alu, Comp.control, Comp.value, Comp.input, not_not_and_not]

theorem fields_computeWord (dest : Dest) (comp : Comp) (jump : Jump) :
    (computeWord dest comp jump).getLsbD 15 = true ∧
      (computeWord dest comp jump).getLsbD 12 = (comp.input == .m) ∧
      (computeWord dest comp jump).extractLsb' 6 6 = comp.control ∧
      ((computeWord dest comp jump).getLsbD 5 = dest.writesA ∧
        (computeWord dest comp jump).getLsbD 4 = dest.writesD ∧
        (computeWord dest comp jump).getLsbD 3 = dest.writesM) ∧
      (computeWord dest comp jump).getLsbD 2 = jump.ifNegative ∧
        (computeWord dest comp jump).getLsbD 1 = jump.ifZero ∧
        (computeWord dest comp jump).getLsbD 0 = jump.ifPositive := by
  refine ⟨?_, ?_, ?_, ⟨?_, ?_, ?_⟩, ?_, ?_, ?_⟩
  case refine_3 =>
    apply BitVec.eq_of_getLsbD_eq
    intro i within
    have offset : ¬6 + i < 3 ∧ ¬6 + i - 3 < 3 ∧ 6 + i - 3 - 3 = i := by omega
    simp only [computeWord, Comp.bits, BitVec.getLsbD_extractLsb', BitVec.getLsbD_append, offset, within,
      decide_true, Bool.true_and, if_false, if_true, Nat.lt_succ_of_lt within]
  all_goals
    simp only [computeWord, Comp.bits, Dest.bits, Jump.bits, BitVec.getLsbD_append]
    simp

theorem execute_compute (dest : Dest) (comp : Comp) (jump : Jump) :
    Machine.execute (computeWord dest comp jump) ⟨memory, program, a, d, pc⟩ =
      { memory := if dest.writesM then memory.write a (comp.value d a (memory.read a)) else memory
        program := program
        a := if dest.writesA then comp.value d a (memory.read a) else a
        d := if dest.writesD then comp.value d a (memory.read a) else d
        pc := if jump.taken (comp.value d a (memory.read a)) then a.toNat else pc + 1 } := by
  obtain ⟨computes, input, control, ⟨toA, toD, toM⟩, negative, zero, positive⟩ := fields_computeWord dest comp jump
  have second : (if (comp.input == .m) = true then memory.read a else a) =
      comp.input.select a (memory.read a) := by
    cases comp.input <;> rfl
  simp only [Machine.execute, computes, input, control, toA, toD, toM, negative, zero, positive, second,
    alu_control, Jump.taken, if_true]
  rfl

theorem execute_address {word : Word} (loads : word.getLsbD 15 = false) :
    Machine.execute word ⟨memory, program, a, d, pc⟩ = ⟨memory, program, word, d, pc + 1⟩ := by
  rw [Machine.execute, loads]
  rfl

end Hack
