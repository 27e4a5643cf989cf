import Hack.Proofs.Stack.Building
import Hack.Proofs.Stack.Blocks
import Hack.Proofs.Stack.Frames

namespace Hack.Stack

open Hack.Assembly

/-- The values of words. -/
def InRange (value : Int) : Prop :=
  -32768 ≤ value ∧ value ≤ 32767

/-- What a comparison asks about two numbers. -/
def ArithmeticOp.Holds (x y : Int) : ArithmeticOp → Prop
  | .eq => x = y
  | .gt => y < x
  | .lt => x < y
  | _ => False

/-- What the answer of a comparison says about its operands. -/
structure Answers (op : ArithmeticOp) (x y answer : Word) : Prop where
  truth : answer = -1 ∨ answer = 0
  within : op = .eq ∨ InRange (x.toInt - y.toInt) → (answer = -1 ↔ op.Holds x.toInt y.toInt)
  beyond : op ≠ .eq → ¬InRange (x.toInt - y.toInt) → (answer = -1 ↔ op.Holds y.toInt x.toInt)

variable {op : ArithmeticOp} {jump : Jump} {x y : Word} {memory : Memory}

theorem truth_eq_minusOne_iff {holds : Bool} : truth holds = -1 ↔ holds = true := by
  cases holds <;> simp [truth]

theorem truth_cases (holds : Bool) : truth holds = -1 ∨ truth holds = 0 := by
  cases holds <;> simp [truth]

/-- The sign of a difference, where it is right and where it is wrong. -/
theorem toInt_sub_cases (x y : Word) :
    (InRange (x.toInt - y.toInt) ∧ (x - y).toInt = x.toInt - y.toInt) ∨
      (¬InRange (x.toInt - y.toInt) ∧ (y.toInt < x.toInt ∧ (x - y).toInt < 0 ∨ x.toInt < y.toInt ∧ 0 < (x - y).toInt)) := by
  have xLow := x.le_toInt
  have xHigh := x.toInt_lt
  have yLow := y.le_toInt
  have yHigh := y.toInt_lt
  have wrapped : (x - y).toInt = (x.toInt - y.toInt).bmod (2 ^ 16) := BitVec.toInt_sub
  rw [wrapped, Int.bmod_def]
  unfold InRange
  split <;> omega

theorem answers_taken (compares : op.jump? = some jump) (x y : Word) : Answers op x y (truth (jump.taken (x - y))) := by
  refine ⟨truth_cases _, fun inside => ?_, fun ordered outside => ?_⟩
  · rw [truth_eq_minusOne_iff]
    cases op <;> cases compares
    · rw [taken_equal, beq_iff_eq, sub_eq_zero, ArithmeticOp.Holds, BitVec.toInt_inj]
    · rcases toInt_sub_cases x y with ⟨_, exact⟩ | ⟨outside, _⟩
      · rw [taken_greater, decide_eq_true_iff, exact, ArithmeticOp.Holds, Int.sub_pos]
      · simp [outside] at inside
    · rcases toInt_sub_cases x y with ⟨_, exact⟩ | ⟨outside, _⟩
      · rw [taken_less, decide_eq_true_iff, exact, ArithmeticOp.Holds]
        omega
      · simp [outside] at inside
  · rw [truth_eq_minusOne_iff]
    rcases toInt_sub_cases x y with ⟨inside, _⟩ | ⟨_, opposite⟩
    · exact absurd inside outside
    · cases op <;> cases compares
      · exact absurd rfl ordered
      · rw [taken_greater, decide_eq_true_iff, ArithmeticOp.Holds]
        omega
      · rw [taken_less, decide_eq_true_iff, ArithmeticOp.Holds]
        omega

section Stack

variable (room : 3 ≤ memory.sp.toNat)
include room

theorem sp_drop_drop : memory.drop.drop.sp = memory.sp - 2 ∧ memory.sp - 2 ≠ 0 := by
  have two : memory.sp - 1 - 1 = memory.sp - 2 := by rw [sub_sub]; rfl
  refine ⟨by rw [Memory.sp_drop, Memory.sp_drop, two], ?_⟩
  bv_omega

theorem operands_eq :
    memory.drop.drop.top = memory.read (memory.sp - 2) ∧ memory.drop.top = memory.read (memory.sp - 1) := by
  obtain ⟨place, opened⟩ := sp_drop_drop room
  refine ⟨?_, Memory.top_drop ?_⟩
  · rw [Memory.top, place, Memory.read_drop opened, Memory.read_drop opened]
  · bv_omega

theorem read_compared (answer : Word) :
    (memory.drop.drop.push answer).sp = memory.sp - 1 ∧
      (memory.drop.drop.push answer).read (memory.sp - 2) = answer ∧
      ∀ cell, cell ≠ 0 → cell ≠ memory.sp - 2 → (memory.drop.drop.push answer).read cell = memory.read cell := by
  obtain ⟨place, opened⟩ := sp_drop_drop room
  rw [← place] at opened ⊢
  refine ⟨?_, Memory.read_push_top opened, fun cell noPointer elsewhere => ?_⟩
  · rw [Memory.sp_push opened, Memory.sp_drop, Memory.sp_drop, sub_add_cancel]
  · rw [Memory.read_push noPointer elsewhere, Memory.read_drop noPointer, Memory.read_drop noPointer]

end Stack

namespace Built

variable {files : List SourceFile} {config : Config} {index : Nat} {file : String}

/-- The code of a comparison leaves its answer in the place of the operands, and
goes on behind itself.  The name of a file holds no slash. -/
theorem comparison_answers (built : Built files config) (noSlash : ∀ file ∈ files, '/' ∉ file.name.toList)
    (means : Means built.commands index file (.arithmetic op)) (compares : op ∈ [.eq, .gt, .lt])
    (room : 3 ≤ memory.sp.toNat) (a d : Word) :
    built.start (index + 1) = built.start index + 19 ∧
      ∃ after a' d', Machine.Reaches ⟨memory, built.program, a, d, built.start index⟩
          ⟨after, built.program, a', d', built.start index + 19⟩ ∧
        after.sp = memory.sp - 1 ∧
        Answers op (memory.read (memory.sp - 2)) (memory.read (memory.sp - 1)) (after.read (memory.sp - 2)) ∧
        ∀ cell, cell ≠ 0 → cell ≠ memory.sp - 2 → after.read cell = memory.read cell := by
  obtain ⟨jump, jumps⟩ : ∃ jump, op.jump? = some jump := by
    simp only [List.mem_cons, List.not_mem_nil, or_false] at compares
    rcases compares with rfl | rfl | rfl <;> exact ⟨_, rfl⟩
  have countable : ∀ file ∈ files, Countable file.name.toList := fun file member => .of_noSlash (noSlash file member)
  obtain ⟨own, stands, reads, next⟩ := stands_own means
  rw [Operation.code, code_of_jump? jumps, emitted_of_countable countable] at reads
  have same := reads_of_legal (legal_comparison _ jump) reads built.linked stands.mem
  subst same
  refine ⟨next, ?_⟩
  obtain ⟨a', d', reached⟩ : ∃ a' d', Machine.Reaches ⟨memory, built.program, a, d, built.start index⟩ _ :=
    leads_comparison built.linked stands a d
  obtain ⟨place, answer, kept⟩ := read_compared room (truth (jump.taken (memory.drop.drop.top - memory.drop.top)))
  refine ⟨_, a', d', reached, place, ?_, kept⟩
  obtain ⟨lower, upper⟩ := operands_eq room
  rw [answer, lower, upper]
  exact answers_taken jumps _ _

end Built

/-- A memory with two values on the stack. -/
def holding (x y : Word) : Memory :=
  ((Memory.zeroed.write 0 258).write 256 x).write 257 y

/-- The difference of 20000 and -20000 wraps around, so the greater number is
not found to be greater. -/
theorem comparison_answers_wrapped :
    ∃ built : Built [⟨"Main", "gt"⟩] ⟨false, false⟩, (∀ file ∈ [SourceFile.mk "Main" "gt"], '/' ∉ file.name.toList) ∧
      Means built.commands 0 "Main" (.arithmetic .gt) ∧ 3 ≤ (holding 20000 (-20000)).sp.toNat ∧
      ∃ after a d, Machine.Reaches ⟨holding 20000 (-20000), built.program, 0, 0, built.start 0⟩
          ⟨after, built.program, a, d, built.start 1⟩ ∧ after.sp = 257 ∧ after.read 256 = 0 := by
  have succeeds : (build [⟨"Main", "gt"⟩] ⟨false, false⟩).toOption.isSome = true := by decide +kernel
  obtain ⟨binary, succeeded⟩ := exists_ok_of_isSome succeeds
  obtain ⟨built, _⟩ := exists_built succeeded
  have source : (readFiles [⟨"Main", "gt"⟩]).toOption.map operationsOf = some [some ("Main", .arithmetic .gt)] := by
    decide +kernel
  rw [built.read] at source
  have table : operationsOf built.commands = [some ("Main", .arithmetic .gt)] := Option.some.inj source
  have noSlash : ∀ file ∈ [SourceFile.mk "Main" "gt"], '/' ∉ file.name.toList := by
    rw [List.forall_mem_singleton]
    decide
  have means : Means built.commands 0 "Main" (.arithmetic .gt) := means_iff.mpr (by rw [table]; rfl)
  have room : 3 ≤ (holding 20000 (-20000)).sp.toNat := by decide +kernel
  obtain ⟨next, after, a, d, reached, place, answers, _⟩ := built.comparison_answers noSlash means (by simp) room 0 0
  have below : (holding 20000 (-20000)).sp - 1 = 257 := by decide +kernel
  have bottom : (holding 20000 (-20000)).sp - 2 = 256 := by decide +kernel
  have lower : (holding 20000 (-20000)).read 256 = 20000 := by decide +kernel
  have upper : (holding 20000 (-20000)).read 257 = -20000 := by decide +kernel
  rw [below, bottom, lower, upper] at answers
  rw [← next] at reached
  refine ⟨built, noSlash, means, room, after, a, d, reached, place.trans below, ?_⟩
  have wrong : after.read 256 ≠ -1 := by
    intro holds
    have order := (answers.beyond (by decide) (by unfold InRange; decide)).mp holds
    exact absurd order (by unfold ArithmeticOp.Holds; decide)
  exact answers.truth.resolve_left wrong

end Hack.Stack
