import Hack.Proofs.Stack.Agreement

namespace Hack

/-! Frames on the stack.

A call saves the return address and the four pointers of the caller above its
arguments, and a return takes them back from there.  What lies where is said
for the pushes of any number of values, and then for the five of a frame.
-/

open Stack

namespace Memory

/-- Pushes values, the first of them lowest. -/
def pushAll (memory : Memory) (values : List Word) : Memory :=
  values.foldl push memory

variable {memory : Memory} {values rest : List Word} {cell value : Word} {offset : Nat}

theorem sp_write (elsewhere : cell ≠ 0) : (memory.write cell value).sp = memory.sp :=
  read_write_of_ne elsewhere

theorem sp_push (opened : memory.sp ≠ 0) : (memory.push value).sp = memory.sp + 1 := by
  unfold push
  simp only [sp_write opened]
  exact read_write_self

theorem read_push_top (opened : memory.sp ≠ 0) : (memory.push value).read memory.sp = value := by
  unfold push
  simp only
  rw [read_write_of_ne opened.symm, read_write_self]

theorem read_push (noPointer : cell ≠ 0) (elsewhere : cell ≠ memory.sp) :
    (memory.push value).read cell = memory.read cell := by
  unfold push
  simp only
  rw [read_write_of_ne noPointer.symm, read_write_of_ne elsewhere.symm]

theorem pushAll_cons : memory.pushAll (value :: rest) = (memory.push value).pushAll rest := rfl

theorem pushAll_append : memory.pushAll (values ++ rest) = (memory.pushAll values).pushAll rest :=
  List.foldl_append

theorem toNat_sp_push (opened : memory.sp ≠ 0) (room : memory.sp.toNat + 1 < 65536) :
    (memory.push value).sp.toNat = memory.sp.toNat + 1 := by
  rw [sp_push opened, BitVec.toNat_add_of_lt]
  · rfl
  · exact room

theorem ne_zero_of_toNat {word : Word} (positive : 0 < word.toNat) : word ≠ 0 := by
  rintro rfl
  exact absurd positive (by decide)

theorem sp_pushAll (opened : 0 < memory.sp.toNat) (room : memory.sp.toNat + values.length < 65536) :
    (memory.pushAll values).sp.toNat = memory.sp.toNat + values.length := by
  induction values generalizing memory with
  | nil => rfl
  | cons value rest ih =>
      rw [List.length_cons] at room ⊢
      have next : (memory.push value).sp.toNat = memory.sp.toNat + 1 :=
        toNat_sp_push (ne_zero_of_toNat opened) (by omega)
      have more := @ih (memory.push value) (by omega) (by omega)
      rw [pushAll_cons, more, next]
      omega

theorem read_pushAll (opened : 0 < memory.sp.toNat) (room : memory.sp.toNat + values.length < 65536)
    (noPointer : cell ≠ 0)
    (elsewhere : cell.toNat < memory.sp.toNat ∨ memory.sp.toNat + values.length ≤ cell.toNat) :
    (memory.pushAll values).read cell = memory.read cell := by
  induction values generalizing memory with
  | nil => rfl
  | cons value rest ih =>
      rw [List.length_cons] at room elsewhere
      have next : (memory.push value).sp.toNat = memory.sp.toNat + 1 :=
        toNat_sp_push (ne_zero_of_toNat opened) (by omega)
      have apart : cell ≠ memory.sp := by
        rintro rfl
        omega
      rw [pushAll_cons, @ih (memory.push value) (by omega) (by omega) (by omega), read_push noPointer apart]

theorem read_pushAll_value (opened : 0 < memory.sp.toNat) (room : memory.sp.toNat + values.length < 65536)
    (pushed : values[offset]? = some value) (place : cell.toNat = memory.sp.toNat + offset) :
    (memory.pushAll values).read cell = value := by
  induction values generalizing memory offset with
  | nil => contradiction
  | cons first rest ih =>
      rw [List.length_cons] at room
      have next : (memory.push first).sp.toNat = memory.sp.toNat + 1 :=
        toNat_sp_push (ne_zero_of_toNat opened) (by omega)
      have noPointer : cell ≠ 0 := ne_zero_of_toNat (by omega)
      rw [pushAll_cons]
      cases offset with
      | zero =>
          cases pushed
          have same : cell = memory.sp := BitVec.eq_of_toNat_eq place
          rw [read_pushAll (by omega) (by omega) noPointer (by omega), same,
            read_push_top (ne_zero_of_toNat opened)]
      | succ offset => exact @ih (memory.push first) offset (by omega) (by omega) pushed (by omega)

theorem save_pushAll (opened : 0 < memory.sp.toNat) (room : memory.sp.toNat + values.length < 65536)
    (noPointer : cell ≠ 0) (below : cell.toNat < memory.sp.toNat) :
    (memory.pushAll values).save cell = memory.pushAll (values ++ [memory.read cell]) := by
  rw [save, read_pushAll opened room noPointer (.inl below), pushAll_append]
  rfl

/-- What a call puts on the stack. -/
def frame (memory : Memory) (back : Word) : List Word :=
  [back, memory.read 1, memory.read 2, memory.read 3, memory.read 4]

theorem pushAll_frame (back : Word) (low : 16 ≤ memory.sp.toNat) (room : memory.sp.toNat + 5 < 65536) :
    ((((memory.push back).save 1).save 2).save 3).save 4 = memory.pushAll (memory.frame back) := by
  have saves : ∀ cell ∈ ([1, 2, 3, 4] : List Word), ∀ values : List Word, values.length < 5 →
      (memory.pushAll values).save cell = memory.pushAll (values ++ [memory.read cell]) := by
    intro cell member values few
    have small : cell ≠ 0 ∧ cell.toNat < 16 := by
      simp only [List.mem_cons, List.not_mem_nil, or_false] at member
      rcases member with rfl | rfl | rfl | rfl <;> decide
    exact save_pushAll (by omega) (by omega) small.1 (by omega)
  change ((((memory.pushAll [back]).save 1).save 2).save 3).save 4 = _
  rw [saves 1 (by simp) _ (by simp), saves 2 (by simp) _ (by simp), saves 3 (by simp) _ (by simp),
    saves 4 (by simp) _ (by simp)]
  rfl

section Call

variable {back : Word} {arguments : Nat}

theorem sp_pushAll_frame (back : Word) (low : 16 ≤ memory.sp.toNat) (high : memory.sp.toNat + 5 ≤ 32768) :
    (memory.pushAll (memory.frame back)).sp = memory.sp + 5 := by
  have room : memory.sp.toNat + (memory.frame back).length < 65536 := by
    change memory.sp.toNat + 5 < 65536
    omega
  have count : _ = memory.sp.toNat + 5 := sp_pushAll (by omega) room
  bv_omega

theorem call_eq (back : Word) (low : 16 + arguments ≤ memory.sp.toNat) (high : memory.sp.toNat + 5 ≤ 32768) :
    memory.call back arguments = ((memory.pushAll (memory.frame back)).write 2
      (memory.sp - BitVec.ofNat 16 arguments)).write 1 (memory.sp + 5) := by
  have pointer := sp_pushAll_frame back (show 16 ≤ memory.sp.toNat by omega) high
  have start : memory.sp + 5 - BitVec.ofNat 16 (arguments + 5) = memory.sp - BitVec.ofNat 16 arguments := by
    bv_omega
  unfold call
  simp only
  rw [pushAll_frame back (by omega) (by omega), pointer, start, sp_write (by decide), pointer]

/-- Above the pointers a call only pushes its frame. -/
theorem read_call (low : 16 + arguments ≤ memory.sp.toNat) (high : memory.sp.toNat + 5 ≤ 32768)
    (noLocals : cell ≠ 1) (noArguments : cell ≠ 2) :
    (memory.call back arguments).read cell = (memory.pushAll (memory.frame back)).read cell := by
  rw [call_eq back low high, read_write_of_ne noLocals.symm, read_write_of_ne noArguments.symm]

theorem read_call_frame (offset : Nat) (low : 16 + arguments ≤ memory.sp.toNat) (high : memory.sp.toNat + 5 ≤ 32768)
    (saved : (memory.frame back)[offset]? = some value) (place : cell.toNat = memory.sp.toNat + offset) :
    (memory.call back arguments).read cell = value := by
  have room : memory.sp.toNat + (memory.frame back).length < 65536 := by
    change memory.sp.toNat + 5 < 65536
    omega
  rw [read_call low high (by bv_omega) (by bv_omega)]
  exact read_pushAll_value (by omega) room saved place

end Call

section Return

variable {target source start place : Word}

theorem sp_drop : memory.drop.sp = memory.sp - 1 := read_write_self

theorem read_drop (noPointer : cell ≠ 0) : memory.drop.read cell = memory.read cell :=
  read_write_of_ne noPointer.symm

theorem top_drop (opened : memory.sp ≠ 1) : memory.drop.top = memory.read (memory.sp - 1) := by
  rw [top, sp_drop]
  exact read_drop (sub_ne_zero_of_ne opened)

/-- The top of the stack is taken to a cell, and the stack ends behind it. -/
def answer (memory : Memory) (place : Word) : Memory :=
  (memory.drop.write place memory.drop.top).write 0 (place + 1)

theorem read_answer (noPointer : cell ≠ 0) (elsewhere : cell ≠ place) :
    (memory.answer place).read cell = memory.read cell := by
  rw [answer, read_write_of_ne noPointer.symm, read_write_of_ne elsewhere.symm, read_drop noPointer]

theorem read_answer_place (noPointer : place ≠ 0) : (memory.answer place).read place = memory.drop.top := by
  rw [answer, read_write_of_ne noPointer.symm, read_write_self]

/-- The four pointers are taken from a frame. -/
def unframe (memory : Memory) (start : Word) : Memory :=
  (((memory.restore 4 (start + 4)).restore 3 (start + 3)).restore 2 (start + 2)).restore 1 (start + 1)

theorem read_restore_self : (memory.restore cell source).read cell = memory.read source := read_write_self

theorem read_restore (elsewhere : target ≠ cell) : (memory.restore target source).read cell = memory.read cell :=
  read_write_of_ne elsewhere

theorem read_unframe (elsewhere : ∀ base : Base, base.cell ≠ cell) :
    (memory.unframe start).read cell = memory.read cell :=
  (read_restore (elsewhere .locals)).trans ((read_restore (elsewhere .arguments)).trans
    ((read_restore (elsewhere .this)).trans (read_restore (elsewhere .that))))

theorem read_unframe_pointer (apart : ∀ base other : Base, base.cell ≠ start + other.cell) (base : Base) :
    (memory.unframe start).read base.cell = memory.read (start + base.cell) := by
  have that := apart .that base
  have this := apart .this base
  have argument := apart .arguments base
  unfold unframe
  cases base with
  | locals =>
      exact read_restore_self.trans ((read_restore argument).trans ((read_restore this).trans (read_restore that)))
  | arguments =>
      rw [read_restore (by decide)]
      exact read_restore_self.trans ((read_restore this).trans (read_restore that))
  | this =>
      rw [read_restore (by decide), read_restore (by decide)]
      exact read_restore_self.trans (read_restore that)
  | that =>
      rw [read_restore (by decide), read_restore (by decide), read_restore (by decide)]
      exact read_restore_self

end Return

end Memory

namespace Stack

/-- The memory of a callee: its pointers lead to the frame that a call has made
above the stack of the caller, and the frame holds what the caller gets back. -/
structure Framed (caller : Memory) (back : Word) (arguments : Nat) (memory : Memory) : Prop where
  locals_eq : memory.read 1 = caller.sp + 5
  arguments_eq : memory.read 2 = caller.sp - BitVec.ofNat 16 arguments
  back_eq : memory.read caller.sp = back
  saved_eq : ∀ base : Base, memory.read (caller.sp + base.cell) = caller.read base.cell

variable {caller memory : Memory} {back cell : Word} {arguments : Nat}

theorem Framed.push (framed : Framed caller back arguments memory) (low : 16 ≤ caller.sp.toNat)
    (above : caller.sp.toNat + 5 ≤ memory.sp.toNat) (value : Word) :
    Framed caller back arguments (memory.push value) := by
  have kept : ∀ cell, cell ≠ 0 → cell.toNat < caller.sp.toNat + 5 →
      (memory.push value).read cell = memory.read cell := by
    intro cell noPointer below
    have elsewhere : cell ≠ memory.sp := by
      rintro rfl
      omega
    exact Memory.read_push noPointer elsewhere
  have inFrame : ∀ base : Base, caller.sp + base.cell ≠ 0 ∧
      (caller.sp + base.cell).toNat < caller.sp.toNat + 5 := by
    intro base
    cases base <;> simp only [Base.cell] <;> constructor <;> bv_omega
  refine ⟨?_, ?_, ?_, fun base => ?_⟩
  · rw [kept 1 (by decide) (by bv_omega), framed.locals_eq]
  · rw [kept 2 (by decide) (by bv_omega), framed.arguments_eq]
  · rw [kept caller.sp (by bv_omega) (by omega), framed.back_eq]
  · rw [kept _ (inFrame base).1 (inFrame base).2, framed.saved_eq base]

theorem framed_call (back : Word) (low : 16 + arguments ≤ memory.sp.toNat) (high : memory.sp.toNat + 5 ≤ 32768) :
    Framed memory back arguments (memory.call back arguments) := by
  refine ⟨?_, ?_, Memory.read_call_frame 0 low high rfl rfl, fun base => ?_⟩
  · rw [Memory.call_eq back low high, Memory.read_write_self]
  · rw [Memory.call_eq back low high, Memory.read_write_of_ne (by decide), Memory.read_write_self]
  · cases base with
    | locals => exact Memory.read_call_frame 1 low high rfl (by simp only [Base.cell]; bv_omega)
    | arguments => exact Memory.read_call_frame 2 low high rfl (by simp only [Base.cell]; bv_omega)
    | this => exact Memory.read_call_frame 3 low high rfl (by simp only [Base.cell]; bv_omega)
    | that => exact Memory.read_call_frame 4 low high rfl (by simp only [Base.cell]; bv_omega)

theorem sp_call (back : Word) (low : 16 + arguments ≤ memory.sp.toNat) (high : memory.sp.toNat + 5 ≤ 32768) :
    (memory.call back arguments).sp = memory.sp + 5 := by
  have pushed : (memory.call back arguments).sp = (memory.pushAll (memory.frame back)).sp :=
    Memory.read_call low high (by decide) (by decide)
  rw [pushed, Memory.sp_pushAll_frame back (by omega) high]

theorem read_call_outside (low : 16 + arguments ≤ memory.sp.toNat) (high : memory.sp.toNat + 5 ≤ 32768)
    (noPointer : cell ∉ ([0, 1, 2] : List Word))
    (outside : cell.toNat < memory.sp.toNat ∨ memory.sp.toNat + 5 ≤ cell.toNat) :
    (memory.call back arguments).read cell = memory.read cell := by
  simp only [List.mem_cons, List.not_mem_nil, or_false, not_or] at noPointer
  rw [Memory.read_call low high noPointer.2.1 noPointer.2.2]
  refine Memory.read_pushAll (by omega) ?_ noPointer.1 outside
  change memory.sp.toNat + 5 < 65536
  omega

/-- The memory after a return: the caller has its pointers back and the answer
of the callee in the place of the arguments. -/
structure Resumed (caller callee : Memory) (arguments : Nat) (memory : Memory) : Prop where
  pointer_eq : ∀ base : Base, memory.read base.cell = caller.read base.cell
  sp_eq : memory.sp = caller.sp - BitVec.ofNat 16 arguments + 1
  answer_eq : memory.read (caller.sp - BitVec.ofNat 16 arguments) = callee.read (callee.sp - 1)
  kept : ∀ cell, cell ∉ ([0, 1, 2, 3, 4, 13, 14] : List Word) → cell ≠ caller.sp - BitVec.ofNat 16 arguments →
    memory.read cell = callee.read cell

variable {other : Memory}

theorem returnAddress_framed (framed : Framed caller back arguments memory) : memory.returnAddress = back := by
  have place : caller.sp + 5 - 5 = caller.sp := by bv_omega
  rw [Memory.returnAddress, framed.locals_eq, place, framed.back_eq]

theorem leave_framed (framed : Framed caller back arguments memory) (low : 16 + arguments ≤ caller.sp.toNat) :
    memory.leave = (memory.answer (caller.sp - BitVec.ofNat 16 arguments)).unframe caller.sp := by
  have next : caller.sp + 5 - 1 = caller.sp + 4 ∧ caller.sp + 5 - 2 = caller.sp + 3 ∧
      caller.sp + 5 - 3 = caller.sp + 2 ∧ caller.sp + 5 - 4 = caller.sp + 1 := by
    refine ⟨?_, ?_, ?_, ?_⟩ <;> bv_omega
  have argument : memory.drop.read 2 = caller.sp - BitVec.ofNat 16 arguments := by
    rw [Memory.read_drop (by decide), framed.arguments_eq]
  have apart : caller.sp - BitVec.ofNat 16 arguments ≠ 2 := by bv_omega
  unfold Memory.leave Memory.unframe Memory.answer
  simp only
  rw [argument, Memory.read_write_of_ne apart, argument, framed.locals_eq, next.1, next.2.1, next.2.2.1,
    next.2.2.2]

theorem resumed_leave (framed : Framed caller back arguments memory) (low : 16 + arguments ≤ caller.sp.toNat)
    (high : caller.sp.toNat + 5 ≤ 32768) (answered : caller.sp.toNat + 6 ≤ memory.sp.toNat) :
    Resumed caller memory arguments memory.leave := by
  have left := leave_framed framed low
  generalize start : caller.sp - BitVec.ofNat 16 arguments = answer at left
  have place : 16 ≤ answer.toNat ∧ answer.toNat ≤ caller.sp.toNat := by bv_omega
  have apart : ∀ base other : Base, base.cell ≠ caller.sp + other.cell := by
    intro base other
    cases base <;> cases other <;> simp only [Base.cell] <;> bv_omega
  rw [left]
  refine ⟨fun base => ?_, ?_, ?_, ?_⟩
  · have inFrame : caller.sp + base.cell ≠ 0 ∧ caller.sp + base.cell ≠ answer := by
      cases base <;> simp only [Base.cell] <;> constructor <;> bv_omega
    rw [Memory.read_unframe_pointer apart, Memory.read_answer inFrame.1 inFrame.2, framed.saved_eq base]
  · have noBase : ∀ base : Base, base.cell ≠ 0 := by
      intro base
      cases base <;> decide
    rw [Memory.sp, Memory.read_unframe noBase, start]
    exact Memory.read_write_self
  · have noBase : ∀ base : Base, base.cell ≠ answer := by
      intro base
      cases base <;> simp only [Base.cell] <;> bv_omega
    rw [start, Memory.read_unframe noBase, Memory.read_answer_place (by bv_omega), Memory.top_drop (by bv_omega)]
  · intro cell outside elsewhere
    have noBase : ∀ base : Base, base.cell ≠ cell := by
      rintro base rfl
      cases base <;> exact outside (by decide)
    have noPointer : cell ≠ 0 := by
      rintro rfl
      exact outside (by decide)
    rw [Memory.read_unframe noBase, Memory.read_answer noPointer (start ▸ elsewhere)]

theorem not_scratch (above : 16 ≤ cell.toNat) : cell ∉ scratch := by
  intro inside
  rcases List.mem_pair.mp inside with rfl | rfl <;> exact absurd above (by decide)

theorem Resumed.agree {callee : Memory} (resumed : Resumed caller callee arguments memory) (agree : Agree memory other)
    (low : 16 + arguments ≤ caller.sp.toNat) : Resumed caller callee arguments other := by
  refine ⟨fun base => ?_, ?_, ?_, fun cell outside elsewhere => ?_⟩
  · rw [← agree base.cell (by cases base <;> decide), resumed.pointer_eq base]
  · rw [← agree.sp, resumed.sp_eq]
  · rw [← agree _ (not_scratch (by bv_omega)), resumed.answer_eq]
  · have kept : cell ∉ scratch := by
      intro inside
      exact outside (List.mem_append_right [0, 1, 2, 3, 4] inside)
    rw [← agree cell kept, resumed.kept cell outside elsewhere]

theorem consults_framed (framed : Framed caller back arguments memory) (low : 16 + arguments ≤ caller.sp.toNat)
    (high : caller.sp.toNat + 5 ≤ 32768) (answered : caller.sp.toNat + 6 ≤ memory.sp.toNat) :
    ∀ cell ∈ Operation.ret.consults memory, cell ∉ scratch := by
  have argument : memory.drop.read 2 = caller.sp - BitVec.ofNat 16 arguments := by
    rw [Memory.read_drop (by decide), framed.arguments_eq]
  intro cell member
  apply not_scratch
  simp only [Operation.consults, List.mem_cons, List.not_mem_nil, or_false, framed.locals_eq, Memory.sp_drop,
    argument] at member
  rcases member with rfl | rfl | rfl | rfl | rfl | rfl | rfl <;> bv_omega

end Stack

end Hack
