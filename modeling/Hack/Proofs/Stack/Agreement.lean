import Hack.Proofs.Stack.Blocks

namespace Hack.Stack

/-- Two memories differ in the scratch cells at most. -/
def Agree (memory other : Memory) : Prop :=
  ∀ cell, cell ∉ scratch → memory.read cell = other.read cell

variable {memory other : Memory} {cell source address value : Word}

theorem read_write (memory : Memory) (address value cell : Word) :
    (memory.write address value).read cell = if address = cell then value else memory.read cell := by
  split
  · next same =>
      subst same
      exact Memory.read_write_self
  · next apart => exact Memory.read_write_of_ne apart

namespace Agree

theorem refl (memory : Memory) : Agree memory memory :=
  fun _ _ => rfl

theorem write (agree : Agree memory other) (address value : Word) :
    Agree (memory.write address value) (other.write address value) := by
  intro cell outside
  rw [read_write, read_write, agree cell outside]

/-- A scratch cell may be written on one side alone. -/
theorem note (agree : Agree memory other) (inside : address ∈ scratch) :
    Agree memory (other.write address value) := by
  intro cell outside
  have apart : address ≠ cell := by
    rintro rfl
    exact outside inside
  rw [Memory.read_write_of_ne apart, agree cell outside]

theorem sp (agree : Agree memory other) : memory.sp = other.sp :=
  agree 0 (by decide)

theorem push (agree : Agree memory other) (value : Word) : Agree (memory.push value) (other.push value) := by
  have stored : Agree (memory.write memory.sp value) (other.write other.sp value) := by
    rw [agree.sp]
    exact agree.write other.sp value
  unfold Memory.push
  simp only
  rw [stored.sp]
  exact stored.write 0 _

theorem drop (agree : Agree memory other) : Agree memory.drop other.drop := by
  unfold Memory.drop
  rw [agree.sp]
  exact agree.write 0 _

theorem top (agree : Agree memory other) (outside : memory.sp ∉ scratch) : memory.top = other.top := by
  unfold Memory.top
  rw [← agree.sp]
  exact agree _ outside

theorem save (agree : Agree memory other) (outside : cell ∉ scratch) :
    Agree (memory.save cell) (other.save cell) := by
  unfold Memory.save
  rw [agree cell outside]
  exact agree.push _

theorem reserve (agree : Agree memory other) (count : Nat) : Agree (memory.reserve count) (other.reserve count) := by
  induction count generalizing memory other with
  | zero => exact agree
  | succ count ih => exact ih (agree.push 0)

theorem call (agree : Agree memory other) (returnAddress : Word) (arguments : Nat) :
    Agree (memory.call returnAddress arguments) (other.call returnAddress arguments) := by
  have lcl := (agree.push returnAddress).save (show (1 : Word) ∉ scratch by decide)
  have arg := lcl.save (show (2 : Word) ∉ scratch by decide)
  have this := arg.save (show (3 : Word) ∉ scratch by decide)
  have that := this.save (show (4 : Word) ∉ scratch by decide)
  unfold Memory.call
  simp only
  rw [that.sp]
  have framed := that.write 2
    ((((((other.push returnAddress).save 1).save 2).save 3).save 4).sp - BitVec.ofNat 16 (arguments + 5))
  rw [framed.sp]
  exact framed.write 1 _

theorem apply (agree : Agree memory other) (op : ArithmeticOp)
    (outside : ∀ cell ∈ (Operation.arithmetic op).consults memory, cell ∉ scratch) :
    Agree (op.apply memory) (op.apply other) := by
  unfold ArithmeticOp.apply
  cases unary : op.isUnary with
  | true =>
      simp only [Operation.consults, unary, if_true, List.forall_mem_singleton] at outside
      rw [if_pos rfl, if_pos rfl, agree.drop.top outside]
      exact agree.drop.push _
  | false =>
      simp only [Operation.consults, unary, Bool.false_eq_true, if_false, List.forall_mem_cons] at outside
      obtain ⟨upper, lower, _⟩ := outside
      rw [if_neg Bool.false_ne_true, if_neg Bool.false_ne_true, agree.drop.top upper, agree.drop.drop.top lower]
      exact agree.drop.drop.push _

end Agree

/-- Memories in the course of a return: the frame has been unwound down to the
cell whose address is in `R13`, and `R14` holds the return address. -/
structure Unwinding (memory other : Memory) (source back : Word) : Prop where
  agree : Agree memory other
  source_eq : other.read 13 = source
  back_eq : other.read 14 = back

namespace Unwinding

variable {back : Word}

theorem write (unwinding : Unwinding memory other source back) (outside : address ∉ scratch) (value : Word) :
    Unwinding (memory.write address value) (other.write address value) source back := by
  have noSource : address ≠ 13 := fun same => outside (same ▸ by decide)
  have noBack : address ≠ 14 := fun same => outside (same ▸ by decide)
  refine ⟨unwinding.agree.write address value, ?_, ?_⟩
  · rw [Memory.read_write_of_ne noSource, unwinding.source_eq]
  · rw [Memory.read_write_of_ne noBack, unwinding.back_eq]

theorem unwind (unwinding : Unwinding memory other source back) (target : cell ∉ scratch)
    (outside : source - 1 ∉ scratch) :
    Unwinding (memory.restore cell (source - 1)) (Stack.unwind other cell) (source - 1) back := by
  have noted : Unwinding memory (other.write 13 (source - 1)) (source - 1) back := by
    refine ⟨unwinding.agree.note (by decide), Memory.read_write_self, ?_⟩
    rw [Memory.read_write_of_ne (by decide), unwinding.back_eq]
  unfold Stack.unwind Memory.restore
  rw [unwinding.source_eq, ← noted.agree _ outside]
  exact noted.write target _

end Unwinding

theorem unwinding_noteFrame (agree : Agree memory other) (outside : memory.read 1 - 5 ∉ scratch) :
    Unwinding memory (noteFrame other) (memory.read 1) memory.returnAddress := by
  have frame : memory.read 1 = other.read 1 := agree 1 (by decide)
  have noted : Agree memory (other.write 13 (other.read 1)) := agree.note (by decide)
  unfold noteFrame
  refine ⟨noted.note (by decide), ?_, ?_⟩
  · rw [Memory.read_write_of_ne (by decide), Memory.read_write_self, frame]
  · rw [Memory.read_write_self, ← frame]
    rw [← frame] at noted
    exact (noted _ outside).symm

/-- The code of a return leaves the memory that the semantics says, and the
return address in `R14`. -/
theorem unwinding_returned (agree : Agree memory other)
    (outside : ∀ cell ∈ Operation.ret.consults memory, cell ∉ scratch) :
    Unwinding memory.leave (returned other) (memory.read 1 - 4) memory.returnAddress := by
  simp only [Operation.consults, List.forall_mem_cons] at outside
  obtain ⟨value, answer, one, two, three, four, five, _⟩ := outside
  have noted := unwinding_noteFrame agree five
  have dropped : Unwinding memory.drop (noteFrame other).drop (memory.read 1) memory.returnAddress := by
    unfold Memory.drop
    rw [noted.agree.sp]
    exact noted.write (by decide) _
  have answered := dropped.write answer memory.drop.top
  have shrunk := answered.write (show (0 : Word) ∉ scratch by decide)
    ((memory.drop.write (memory.drop.read 2) memory.drop.top).read 2 + 1)
  have next : ∀ count : Word, memory.read 1 - count - 1 = memory.read 1 - (count + 1) := fun count => sub_sub _ _ _
  have that := shrunk.unwind (show (4 : Word) ∉ scratch by decide) one
  have this := that.unwind (show (3 : Word) ∉ scratch by decide) (by rw [next]; exact two)
  have arg := this.unwind (show (2 : Word) ∉ scratch by decide) (by rw [next, next]; exact three)
  have lcl := arg.unwind (show (1 : Word) ∉ scratch by decide) (by rw [next, next, next]; exact four)
  rw [next, next, next] at lcl
  unfold Memory.leave returned
  simp only
  rw [← dropped.agree 2 (by decide), ← dropped.agree.top value, ← answered.agree 2 (by decide)]
  exact lcl

end Hack.Stack
