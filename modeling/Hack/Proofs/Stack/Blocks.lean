import Hack.Stack.Lowering
import Hack.Proofs.Machine.Execution
import Hack.Proofs.Stack.Semantics

namespace Hack.Stack

open Hack.Assembly

variable {statements : List Statement} {memory : Memory} {a d : Word} {program : Array Word} {start : Nat}
variable {file : String}

@[simp] theorem wordOf_SP : wordOf statements "SP" = 0 := wordOf_predefined rfl

@[simp] theorem wordOf_LCL : wordOf statements "LCL" = 1 := wordOf_predefined rfl

@[simp] theorem wordOf_ARG : wordOf statements "ARG" = 2 := wordOf_predefined rfl

@[simp] theorem wordOf_THIS : wordOf statements "THIS" = 3 := wordOf_predefined rfl

@[simp] theorem wordOf_THAT : wordOf statements "THAT" = 4 := wordOf_predefined rfl

@[simp] theorem wordOf_R13 : wordOf statements "R13" = 13 := wordOf_predefined rfl

@[simp] theorem wordOf_R14 : wordOf statements "R14" = 14 := wordOf_predefined rfl

@[simp] theorem wordOf_pointer (base : Base) : wordOf statements base.pointer = base.cell := by
  cases base <;> simp [Base.pointer, Base.cell]

section Acts

variable {resolve : String → Word}

@[simp] theorem act_atName (name : String) :
    (atName name).act resolve ⟨memory, a, d⟩ = ⟨memory, resolve name, d⟩ := rfl

@[simp] theorem act_atNumber (value : Nat) :
    (atNumber value).act resolve ⟨memory, a, d⟩ = ⟨memory, BitVec.ofNat 16 value, d⟩ := rfl

@[simp] theorem act_set_a (comp : Comp) :
    (set .a comp).act resolve ⟨memory, a, d⟩ = ⟨memory, comp.value d a (memory.read a), d⟩ := rfl

@[simp] theorem act_set_d (comp : Comp) :
    (set .d comp).act resolve ⟨memory, a, d⟩ = ⟨memory, a, comp.value d a (memory.read a)⟩ := rfl

@[simp] theorem act_set_m (comp : Comp) :
    (set .m comp).act resolve ⟨memory, a, d⟩ = ⟨memory.write a (comp.value d a (memory.read a)), a, d⟩ := rfl

@[simp] theorem act_set_am (comp : Comp) :
    (set .am comp).act resolve ⟨memory, a, d⟩ =
      ⟨memory.write a (comp.value d a (memory.read a)), comp.value d a (memory.read a), d⟩ := rfl

@[simp] theorem act_label (name : String) (registers : Registers) :
    (Statement.label name).act resolve registers = registers := rfl

end Acts

@[simp] theorem perform_pushD :
    perform (wordOf statements) pushD ⟨memory, a, d⟩ = ⟨memory.push d, 0, d⟩ := by
  simp [pushD, pushComp, growStack, Comp.value, Input.select, Memory.push, Memory.sp]

@[simp] theorem perform_pushZero :
    perform (wordOf statements) (pushComp .zero) ⟨memory, a, d⟩ = ⟨memory.push 0, 0, d⟩ := by
  simp [pushComp, growStack, Comp.value, Input.select, Memory.push, Memory.sp]

@[simp] theorem perform_dropTop :
    perform (wordOf statements) dropTop ⟨memory, a, d⟩ = ⟨memory.drop, 0, d⟩ := by
  simp [dropTop, Comp.value, Input.select, Memory.drop, Memory.sp]

@[simp] theorem perform_popD :
    perform (wordOf statements) popD ⟨memory, a, d⟩ = ⟨memory.drop, memory.drop.sp, memory.drop.top⟩ := by
  simp [popD, Comp.value, Input.select, Memory.top, Memory.sp]

theorem perform_binary (comp : Comp) :
    perform (wordOf statements) (binary comp) ⟨memory, a, d⟩ =
      ⟨memory.drop.drop.push (comp.value memory.drop.top memory.drop.drop.sp memory.drop.drop.top), 0,
        comp.value memory.drop.top memory.drop.drop.sp memory.drop.drop.top⟩ := by
  simp [binary, Comp.value, Input.select, Memory.top, Memory.sp]

theorem perform_unary (comp : Comp) :
    perform (wordOf statements) (unary comp) ⟨memory, a, d⟩ =
      ⟨memory.drop.push (comp.value memory.drop.top memory.drop.sp memory.drop.top), 0,
        comp.value memory.drop.top memory.drop.sp memory.drop.top⟩ := by
  simp [unary, Memory.top]

theorem perform_push (cell : Cell) :
    (perform (wordOf statements) (cell.load file ++ pushD) ⟨memory, a, d⟩).memory = memory.push (memory.read
      (cell.address (fun file index => wordOf statements (staticSymbol file index)) file memory)) := by
  cases cell <;> simp [Cell.load, Cell.address, Comp.value, Input.select]

theorem perform_store_direct {cell : Cell} (direct : ∀ base index, cell ≠ .indirect base index) :
    (perform (wordOf statements) (cell.store file) ⟨memory, a, d⟩).memory =
      memory.drop.write (cell.address (fun file index => wordOf statements (staticSymbol file index)) file memory)
        memory.drop.top := by
  cases cell with
  | indirect base index => exact absurd rfl (direct base index)
  | fixed address | static index => simp [Cell.store, Cell.address, Comp.value]

/-- The address of the cell is kept in `R13` while the value is taken off. -/
theorem perform_store_indirect (base : Base) (index : Nat) :
    (perform (wordOf statements) ((Cell.indirect base index).store file) ⟨memory, a, d⟩).memory =
      let noted := memory.write 13 (memory.read base.cell + BitVec.ofNat 16 index)
      noted.drop.write (noted.drop.read 13) noted.drop.top := by
  simp [Cell.store, Comp.value, Input.select]

theorem perform_locals (locals : Nat) :
    (perform (wordOf statements) (List.replicate locals (pushComp .zero)).flatten ⟨memory, a, d⟩).memory =
      memory.reserve locals := by
  induction locals generalizing memory a with
  | zero => rfl
  | succ locals ih =>
      rw [List.replicate_succ, List.flatten_cons, perform_append, perform_pushZero, ih]
      rfl

@[simp] theorem straight_atName (name : String) : (atName name).Straight := trivial

@[simp] theorem straight_atNumber (value : Nat) : (atNumber value).Straight := trivial

@[simp] theorem straight_set (dest : Dest) (comp : Comp) : (set dest comp).Straight := rfl

theorem straight_functionCode (name : String) (locals : Nat) :
    ∀ statement ∈ functionCode name locals, statement.Straight := by
  have zeroes : ∀ statement ∈ pushComp .zero, statement.Straight := by simp [pushComp, growStack]
  refine List.forall_mem_cons.mpr ⟨trivial, fun statement member => ?_⟩
  obtain ⟨block, replicated, inside⟩ := List.mem_flatten.mp member
  rw [List.eq_of_mem_replicate replicated] at inside
  exact zeroes statement inside

/-- Whatever is in the registers, the machine gets from one place to another
and changes the memory on the way. -/
def Leads (program : Array Word) (start : Nat) (memory : Memory) (target : Nat) (after : Memory) : Prop :=
  ∀ a d, ∃ a' d', Machine.Reaches ⟨memory, program, a, d, start⟩ ⟨after, program, a', d', target⟩

variable {target middle : Nat} {after between : Memory} {body : List Statement} {name returnLabel : String}

theorem Leads.refl (program : Array Word) (start : Nat) (memory : Memory) :
    Leads program start memory start memory :=
  fun a d => ⟨a, d, .refl _⟩

theorem Leads.trans (first : Leads program start memory middle between)
    (second : Leads program middle between target after) : Leads program start memory target after := by
  intro a d
  obtain ⟨a', d', reached⟩ := first a d
  obtain ⟨a'', d'', arrived⟩ := second a' d'
  exact ⟨a'', d'', reached.trans arrived⟩

theorem reaches_block (linked : Linked statements program.toList) (stands : Stands statements start body)
    (straight : ∀ statement ∈ body, statement.Straight) (memory : Memory) (a d : Word) :
    Machine.Reaches ⟨memory, program, a, d, start⟩
      ((perform (wordOf statements) body ⟨memory, a, d⟩).at program (start + (code body).length)) := by
  have reached : (Registers.at ⟨memory, a, d⟩ program start).Reaches _ := reaches_perform linked stands straight
  exact reached

theorem leads_of_perform (linked : Linked statements program.toList) (stands : Stands statements start body)
    (straight : ∀ statement ∈ body, statement.Straight)
    (performs : ∀ a d, (perform (wordOf statements) body ⟨memory, a, d⟩).memory = after) :
    Leads program start memory (start + (code body).length) after := by
  intro a d
  have reached := reaches_block linked stands straight memory a d
  rw [Registers.at, performs a d] at reached
  exact ⟨_, _, reached⟩

theorem reaches_jump {comp : Comp} {jump : Jump} {rest : List Statement} {a' d' : Word}
    (linked : Linked statements program.toList)
    (stands : Stands statements start (body ++ jumpIf comp jump :: rest))
    (straight : ∀ statement ∈ body, statement.Straight)
    (performs : perform (wordOf statements) body ⟨memory, a, d⟩ = ⟨after, a', d'⟩) :
    Machine.Reaches ⟨memory, program, a, d, start⟩
      ⟨after, program, a', d', if jump.taken (comp.value d' a' (after.read a')) then a'.toNat
        else start + (code body).length + 1⟩ := by
  have reached := reaches_block linked stands.left straight memory a d
  rw [performs] at reached
  have jumped : (Registers.at ⟨after, a', d'⟩ program (start + (code body).length)).step = _ :=
    step_jump linked stands.right
  exact reached.trans (.step jumped (.refl _))

theorem taken_always (out : Word) : Jump.always.taken out = true := by
  by_cases zero : out = 0#16
  · simp [Jump.taken, Jump.always, zero]
  · cases sign : out.msb <;> simp [Jump.taken, Jump.always, zero, sign]

theorem taken_notEqual (out : Word) : Jump.notEqual.taken out = (out != 0) := by
  by_cases zero : out = 0#16
  · simp [Jump.taken, Jump.notEqual, zero]
  · cases sign : out.msb <;> simp [Jump.taken, Jump.notEqual, zero, sign]

theorem taken_equal (out : Word) : Jump.equal.taken out = (out == 0) := by
  simp [Jump.taken, Jump.equal]

theorem taken_less (out : Word) : Jump.less.taken out = decide (out.toInt < 0) := by
  simp [Jump.taken, Jump.less, BitVec.msb_eq_toInt]

theorem taken_greater (out : Word) : Jump.greater.taken out = decide (0 < out.toInt) := by
  have zero : out.toInt = 0 ↔ out = 0#16 := by
    rw [← BitVec.toInt_inj, BitVec.toInt_zero]
  by_cases negative : out.toInt < 0
  · have bounded : ¬0 < out.toInt := by omega
    simp [Jump.taken, Jump.greater, BitVec.msb_eq_toInt, negative, bounded]
  · by_cases same : out = 0#16
    · simp [Jump.taken, Jump.greater, same]
    · have positive : 0 < out.toInt := by
        have nonzero := mt zero.mp same
        omega
      simp [Jump.taken, Jump.greater, BitVec.msb_eq_toInt, negative, positive, same]

theorem leads_goto (linked : Linked statements program.toList)
    (stands : Stands statements start [atName name, gotoA]) :
    Leads program start memory (addressOf statements name) memory := by
  intro a d
  have used := stands.uses (show atName name ∈ _ by simp)
  have split : Stands statements start ([atName name] ++ jumpIf .zero .always :: []) := stands
  have performs : perform (wordOf statements) [atName name] ⟨memory, a, d⟩ =
      ⟨memory, wordOf statements name, d⟩ := by simp
  have reached := reaches_jump linked split (by simp) performs
  rw [taken_always, if_pos rfl, toNat_wordOf linked used] at reached
  exact ⟨_, _, reached⟩

theorem leads_ifGoto (linked : Linked statements program.toList)
    (stands : Stands statements start (popD ++ [atName name, jumpIf .d .notEqual])) :
    Leads program start memory (if memory.drop.top ≠ 0 then addressOf statements name
      else start + (code (popD ++ [atName name, jumpIf .d .notEqual])).length) memory.drop := by
  intro a d
  have used := stands.uses (show atName name ∈ _ by simp)
  have split : Stands statements start ((popD ++ [atName name]) ++ jumpIf .d .notEqual :: []) := by
    simpa using stands
  have performs : perform (wordOf statements) (popD ++ [atName name]) ⟨memory, a, d⟩ =
      ⟨memory.drop, wordOf statements name, memory.drop.top⟩ := by simp
  have reached := reaches_jump linked split (by simp [popD, dropTop]) performs
  rw [taken_notEqual, toNat_wordOf linked used] at reached
  have behind : start + (code (popD ++ [atName name])).length + 1 =
      start + (code (popD ++ [atName name, jumpIf .d .notEqual])).length := rfl
  rw [behind] at reached
  exact ⟨wordOf statements name, memory.drop.top, by simpa [Comp.value] using reached⟩

theorem toNat_literal {value : Nat} (linked : Linked statements program.toList)
    (used : .address (.literal value) ∈ code statements) : (BitVec.ofNat 16 value).toNat = value :=
  toNat_word (linked.fits _ used)

/-- The two jumps of a comparison stay inside its code. -/
theorem leads_comparison {jump : Jump} (linked : Linked statements program.toList)
    (stands : Stands statements start (comparison start jump)) :
    Leads program start memory (start + 19) (memory.drop.drop.push
      (truth (jump.taken (memory.drop.drop.top - memory.drop.top)))) := by
  intro a d
  have compared : Stands statements start
      ((popD ++ dropTop ++ [set .a (.load .m), set .d (.subFrom .m), atNumber (start + 13)]) ++
        jumpIf .d jump :: ([set .d .zero, atNumber (start + 14), gotoA, set .d .minusOne] ++ pushD)) := stands
  have failed : Stands statements (start + 10)
      ([set .d .zero, atNumber (start + 14)] ++ jumpIf .zero .always :: (set .d .minusOne :: pushD)) :=
    compared.right.tail
  have held : Stands statements (start + 13) ([set .d .minusOne] ++ pushD) := failed.right.tail
  have joined : Stands statements (start + 14) pushD := held.tail
  have trueTarget := toNat_literal linked (compared.uses (show atNumber (start + 13) ∈ _ by simp))
  have falseTarget := toNat_literal linked (failed.uses (show atNumber (start + 14) ∈ _ by simp))
  have compares : perform (wordOf statements)
      (popD ++ dropTop ++ [set .a (.load .m), set .d (.subFrom .m), atNumber (start + 13)]) ⟨memory, a, d⟩ =
        ⟨memory.drop.drop, BitVec.ofNat 16 (start + 13), memory.drop.drop.top - memory.drop.top⟩ := by
    simp [Comp.value, Input.select, Memory.top, Memory.sp]
  have jumped := reaches_jump linked compared (by simp [popD, dropTop]) compares
  rw [trueTarget] at jumped
  cases taken : jump.taken (memory.drop.drop.top - memory.drop.top) with
  | true =>
      have pushes := reaches_block linked held (by simp [pushD, pushComp, growStack]) memory.drop.drop
        (BitVec.ofNat 16 (start + 13)) (memory.drop.drop.top - memory.drop.top)
      have performs : perform (wordOf statements) ([set .d .minusOne] ++ pushD)
          ⟨memory.drop.drop, BitVec.ofNat 16 (start + 13), memory.drop.drop.top - memory.drop.top⟩ =
            ⟨memory.drop.drop.push (truth true), 0, -1⟩ := by
        simp [Comp.value, truth]
      rw [Comp.value, taken, if_pos rfl] at jumped
      rw [performs] at pushes
      exact ⟨0, -1, jumped.trans pushes⟩
  | false =>
      have fails : perform (wordOf statements) [set .d .zero, atNumber (start + 14)]
          ⟨memory.drop.drop, BitVec.ofNat 16 (start + 13), memory.drop.drop.top - memory.drop.top⟩ =
            ⟨memory.drop.drop, BitVec.ofNat 16 (start + 14), 0⟩ := by
        simp [Comp.value]
      have skipped := reaches_jump linked failed (by simp) fails
      have pushes := reaches_block linked joined (by simp [pushD, pushComp, growStack]) memory.drop.drop
        (BitVec.ofNat 16 (start + 14)) 0
      rw [Comp.value, taken] at jumped
      rw [taken_always, if_pos rfl, falseTarget] at skipped
      rw [perform_pushD] at pushes
      exact ⟨0, 0, jumped.trans (skipped.trans pushes)⟩

/-- The code of an arithmetic operation knows the place where it stands. -/
theorem leads_arithmetic (op : ArithmeticOp) (linked : Linked statements program.toList)
    (stands : Stands statements start (op.code start)) :
    Leads program start memory (start + (code (op.code start)).length) (op.apply memory) := by
  have binaries : ∀ comp, ∀ statement ∈ binary comp, statement.Straight := by
    simp [binary, popD, dropTop, pushD, pushComp, growStack]
  have unaries : ∀ comp, ∀ statement ∈ unary comp, statement.Straight := by
    simp [unary, popD, dropTop, pushD, pushComp, growStack]
  cases op with
  | add | sub | and | or =>
      refine leads_of_perform linked stands (binaries _) fun a d => ?_
      rw [ArithmeticOp.code, perform_binary]
      simp [ArithmeticOp.apply, ArithmeticOp.isUnary, ArithmeticOp.combine, Comp.value, Input.select,
        BitVec.add_comm, BitVec.and_comm, BitVec.or_comm]
  | neg | not =>
      refine leads_of_perform linked stands (unaries _) fun a d => ?_
      rw [ArithmeticOp.code, perform_unary]
      rfl
  | eq =>
      have leads : Leads program start memory _ _ := leads_comparison linked stands
      rw [taken_equal] at leads
      exact leads
  | gt =>
      have leads : Leads program start memory _ _ := leads_comparison linked stands
      rw [taken_greater] at leads
      exact leads
  | lt =>
      have leads : Leads program start memory _ _ := leads_comparison linked stands
      rw [taken_less] at leads
      exact leads

/-- The code of a call between the two names that it loads. -/
def framingCode (arguments : Nat) : List Statement :=
  [set .d (.load .a)] ++ pushD ++
    (["LCL", "ARG", "THIS", "THAT"].flatMap fun pointer =>
      [atName pointer, set .d (.load .m)] ++ pushD) ++
    [atName "SP", set .d (.load .m), atNumber (arguments + 5), set .d (.sub .a),
     atName "ARG", set .m .d,
     atName "SP", set .d (.load .m), atName "LCL", set .m .d]

/-- The code of a call up to its jump. -/
def callingCode (name returnLabel : String) (arguments : Nat) : List Statement :=
  [atName returnLabel] ++ framingCode arguments ++ [atName name]

theorem callCode_eq (name returnLabel : String) (arguments : Nat) :
    callCode name returnLabel arguments =
      callingCode name returnLabel arguments ++ jumpIf .zero .always :: [.label returnLabel] := rfl

theorem straight_callingCode (name returnLabel : String) (arguments : Nat) :
    ∀ statement ∈ callingCode name returnLabel arguments, statement.Straight := by
  simp [callingCode, framingCode, pushD, pushComp, growStack]

theorem perform_callingCode (arguments : Nat) :
    ∃ d', perform (wordOf statements) (callingCode name returnLabel arguments) ⟨memory, a, d⟩ =
      ⟨memory.call (wordOf statements returnLabel) arguments, wordOf statements name, d'⟩ := by
  simp only [callingCode, framingCode, perform_append, perform_cons, perform_nil, List.flatMap_cons, List.flatMap_nil,
    List.append_nil, act_atName, act_atNumber, act_set_d, act_set_m, perform_pushD, Comp.value, Input.select,
    wordOf_SP, wordOf_LCL, wordOf_ARG, wordOf_THIS, wordOf_THAT]
  exact ⟨_, rfl⟩

theorem addressOf_returnLabel {arguments : Nat} (linked : Linked statements program.toList)
    (stands : Stands statements start (callCode name returnLabel arguments)) :
    addressOf statements returnLabel = start + (code (callCode name returnLabel arguments)).length := by
  rw [callCode_eq] at stands
  exact stands.right.tail.label linked

theorem leads_call {arguments : Nat} (linked : Linked statements program.toList)
    (stands : Stands statements start (callCode name returnLabel arguments)) :
    Leads program start memory (addressOf statements name) (memory.call
      (BitVec.ofNat 16 (start + (code (callCode name returnLabel arguments)).length)) arguments) := by
  intro a d
  have returns : wordOf statements returnLabel =
      BitVec.ofNat 16 (start + (code (callCode name returnLabel arguments)).length) :=
    congrArg (BitVec.ofNat 16) (addressOf_returnLabel linked stands)
  rw [callCode_eq] at stands
  have used := stands.uses (show atName name ∈ _ by simp [callingCode])
  obtain ⟨d', performs⟩ : ∃ d', perform (wordOf statements) (callingCode name returnLabel arguments)
      ⟨memory, a, d⟩ = _ := perform_callingCode arguments
  have reached := reaches_jump linked stands (straight_callingCode name returnLabel arguments) performs
  rw [taken_always, if_pos rfl, toNat_wordOf linked used, returns] at reached
  exact ⟨_, _, reached⟩

/-- What the code of a return does to the memory: the frame is noted in `R13`
and the return address in `R14`, and `R13` runs down through the frame. -/
def noteFrame (memory : Memory) : Memory :=
  let noted := memory.write 13 (memory.read 1)
  noted.write 14 (noted.read (memory.read 1 - 5))

def unwind (memory : Memory) (cell : Word) : Memory :=
  (memory.write 13 (memory.read 13 - 1)).restore cell (memory.read 13 - 1)

def returned (memory : Memory) : Memory :=
  let noted := noteFrame memory
  let answered := noted.drop.write (noted.drop.read 2) noted.drop.top
  let shrunk := answered.write 0 (answered.read 2 + 1)
  unwind (unwind (unwind (unwind shrunk 4) 3) 2) 1

/-- The code of a return up to its jump. -/
def returningCode : List Statement :=
  [atName "LCL", set .d (.load .m), atName "R13", set .m .d,
   atNumber 5, set .a (.sub .a), set .d (.load .m), atName "R14", set .m .d] ++
    popD ++
    [atName "ARG", set .a (.load .m), set .m .d,
     atName "ARG", set .d (.inc .m), atName "SP", set .m .d] ++
    (["THAT", "THIS", "ARG", "LCL"].flatMap fun pointer =>
      [atName "R13", set .am (.dec .m), set .d (.load .m), atName pointer, set .m .d]) ++
    [atName "R14", set .a (.load .m)]

theorem returnCode_eq : returnCode = returningCode ++ jumpIf .zero .always :: [] := rfl

theorem straight_returningCode : ∀ statement ∈ returningCode, statement.Straight := by
  simp [returningCode, popD, dropTop]

theorem perform_returningCode :
    ∃ d', perform (wordOf statements) returningCode ⟨memory, a, d⟩ =
      ⟨returned memory, (returned memory).read 14, d'⟩ := by
  simp only [returningCode, perform_append, perform_cons, perform_nil, List.flatMap_cons, List.flatMap_nil,
    List.append_nil, act_atName, act_atNumber, act_set_a, act_set_d, act_set_m, act_set_am, perform_popD, Comp.value,
    Input.select, wordOf_SP, wordOf_LCL, wordOf_ARG, wordOf_THIS, wordOf_THAT, wordOf_R13, wordOf_R14]
  exact ⟨_, rfl⟩

theorem leads_return (linked : Linked statements program.toList) (stands : Stands statements start returnCode) :
    Leads program start memory ((returned memory).read 14).toNat (returned memory) := by
  intro a d
  rw [returnCode_eq] at stands
  obtain ⟨d', performs⟩ : ∃ d', perform (wordOf statements) returningCode ⟨memory, a, d⟩ = _ :=
    perform_returningCode
  have reached := reaches_jump linked stands straight_returningCode performs
  rw [taken_always, if_pos rfl] at reached
  exact ⟨_, _, reached⟩

end Hack.Stack
