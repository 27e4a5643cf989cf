import Hack.Proofs.Assembly.Naming
import Hack.Proofs.Stack.Building
import Hack.Proofs.Stack.Frames

namespace Hack.Stack

open Hack.Assembly

variable {files : List SourceFile} {config : Config} {built : Built files config}
variable {name returnLabel : String} {arguments index target : Nat} {own statements : List Statement}
variable {file : String} {memory : Memory} {position : Nat} {words : List Word}

theorem legal_framingCode (arguments : Nat) : ∀ statement ∈ framingCode arguments, statement.Legal := by
  simp [framingCode, pushD, pushComp, growStack, Statement.Legal, isSymbol, opensSymbol]

theorem legal_returnCode : ∀ statement ∈ returnCode, statement.Legal := by
  simp [returnCode, popD, dropTop, Statement.Legal, isSymbol, opensSymbol]

theorem callCode_eq_framing (name returnLabel : String) (arguments : Nat) :
    callCode name returnLabel arguments = [atName returnLabel] ++ (framingCode arguments ++
      ([atName name] ++ ([gotoA] ++ [.label returnLabel]))) := rfl

/-- The code of a call is read as the code of a call, whatever the names in it. -/
theorem own_of_call (linked : Linked statements words) (stands : Stands statements position own)
    (reads : Reads (Statement.render (callCode name returnLabel arguments)).toList own)
    {declared : List Statement} (declares : Reads (Statement.render [.label name]).toList declared) :
    ∃ callee label, own = callCode callee label arguments ∧ declared = [.label callee] := by
  rw [callCode_eq_framing] at reads
  obtain ⟨load, _, label, framed, rfl⟩ := reads.split_render
  obtain ⟨framing, _, body, jumped, rfl⟩ := framed.split_render
  obtain ⟨use, _, callee, closed, rfl⟩ := jumped.split_render
  obtain ⟨goto, back, jump, returns, rfl⟩ := closed.split_render
  obtain ⟨symbol, rfl, rfl⟩ := name_of_reads label returns
  obtain ⟨function, rfl, rfl⟩ := name_of_reads callee declares
  have same := reads_of_legal (legal_framingCode arguments) body linked stands.right.left.mem
  have jumps := reads_of_legal (by simp [Statement.Legal]) jump linked stands.right.right.right.left.mem
  subst same jumps
  exact ⟨function, symbol, rfl, rfl⟩

namespace Built

/-- The names in the code of a call are the label behind it and the function. -/
theorem stands_call (calls : Means built.commands index file (.call name arguments))
    (begins : Begins built.commands name target) :
    ∃ callee label, Stands built.statements (built.start index) (callCode callee label arguments) ∧
      addressOf built.statements callee = built.start target ∧
      built.start (index + 1) = built.start index + (code (callCode callee label arguments)).length := by
  obtain ⟨own, stands, reads, next⟩ := stands_own calls
  obtain ⟨_, locals, means⟩ := begins
  obtain ⟨body, entry, opened, _⟩ := stands_own means
  have opening : functionCode name locals =
      [.label name] ++ (List.replicate locals (pushComp .zero)).flatten := rfl
  rw [Operation.code, opening] at opened
  obtain ⟨declared, zeroes, declares, _, rfl⟩ := opened.split_render
  obtain ⟨callee, label, rfl, rfl⟩ := own_of_call built.linked stands reads declares
  exact ⟨callee, label, stands, entry.label built.linked, next⟩

/-- Calls leave the whole number of the command behind them on the stack. -/
theorem toNat_returnAddress (calls : Means built.commands index file (.call name arguments))
    (begins : Begins built.commands name target) :
    (BitVec.ofNat 16 (built.start (index + 1))).toNat = built.start (index + 1) := by
  obtain ⟨callee, label, stands, _, next⟩ := stands_call calls begins
  have used := stands.uses (show atName label ∈ _ by simp [callCode])
  have value := toNat_wordOf built.linked used
  rw [wordOf, addressOf_returnLabel built.linked stands, ← next] at value
  exact value

theorem leads_call_function (calls : Means built.commands index file (.call name arguments))
    (begins : Begins built.commands name target) (memory : Memory) :
    Leads built.program (built.start index) memory (built.start target)
      (memory.call (BitVec.ofNat 16 (built.start (index + 1))) arguments) := by
  obtain ⟨callee, label, stands, place, next⟩ := stands_call calls begins
  have leads : Leads built.program (built.start index) memory _ _ := leads_call built.linked stands
  rw [← next, place] at leads
  exact leads

theorem leads_return_code (returns : Means built.commands index file .ret) (memory : Memory) :
    Leads built.program (built.start index) memory ((returned memory).read 14).toNat (returned memory) := by
  obtain ⟨own, stands, reads, _⟩ := stands_own returns
  have same := reads_of_legal legal_returnCode reads built.linked stands.mem
  subst same
  exact leads_return built.linked stands

end Built

/-- Where a callee that was called from `index` returns, with its frame in
place and an answer on its stack, the caller goes on behind its call. -/
theorem resumes_caller {caller : Memory} {back : Word} {leaving : Machine} {exit : Nat}
    (returns : Means built.commands exit file .ret) (loaded : leaving.program = built.program)
    (there : leaving.pc = built.start exit) (framed : Framed caller back arguments leaving.memory)
    (low : 16 + arguments ≤ caller.sp.toNat) (high : caller.sp.toNat + 5 ≤ 32768)
    (answered : caller.sp.toNat + 6 ≤ leaving.memory.sp.toNat) :
    ∃ resumed, leaving.Reaches resumed ∧ resumed.pc = back.toNat ∧
      Resumed caller leaving.memory arguments resumed.memory := by
  obtain ⟨memory, program, a, d, pc⟩ := leaving
  obtain rfl : program = built.program := loaded
  obtain rfl : pc = built.start exit := there
  obtain ⟨a', d', reached⟩ := built.leads_return_code returns memory a d
  have unwinding := unwinding_returned (.refl memory) (consults_framed framed low high answered)
  have resumed := (resumed_leave framed low high answered).agree unwinding.agree low
  rw [unwinding.back_eq, returnAddress_framed framed] at reached
  exact ⟨_, reached, rfl, resumed⟩

/-- A call comes to its function with the frame of the caller on the stack and
the cells around it untouched.  From there, whatever is executed, a return that
finds the frame in place and a value on top of the stack goes back behind the
call, gives the caller its pointers, and leaves the value where the arguments
were. -/
theorem call_returns {entry exit : Nat} {other : String} (built : Built files config)
    (calls : Means built.commands index file (.call name arguments)) (begins : Begins built.commands name entry)
    (returns : Means built.commands exit other .ret) (low : 16 + arguments ≤ memory.sp.toNat)
    (high : memory.sp.toNat + 5 ≤ 32768) (a d : Word) :
    ∃ back : Word, back.toNat = built.start (index + 1) ∧
    ∃ entered, Machine.Reaches ⟨memory, built.program, a, d, built.start index⟩ entered ∧
      entered.pc = built.start entry ∧ entered.memory.sp = memory.sp + 5 ∧
      Framed memory back arguments entered.memory ∧
      (∀ cell, cell ∉ ([0, 1, 2] : List Word) →
        (cell.toNat < memory.sp.toNat ∨ memory.sp.toNat + 5 ≤ cell.toNat) →
        entered.memory.read cell = memory.read cell) ∧
      ∀ leaving, entered.Reaches leaving → leaving.pc = built.start exit →
        Framed memory back arguments leaving.memory →
        memory.sp.toNat + 6 ≤ leaving.memory.sp.toNat →
        ∃ resumed, leaving.Reaches resumed ∧ resumed.pc = built.start (index + 1) ∧
          Resumed memory leaving.memory arguments resumed.memory := by
  have place := Built.toNat_returnAddress calls begins
  obtain ⟨a', d', reached⟩ := built.leads_call_function calls begins memory a d
  refine ⟨_, place, _, reached, rfl, sp_call _ low high, framed_call _ low high, ?_, ?_⟩
  · intro cell noPointer outside
    exact read_call_outside low high noPointer outside
  · intro leaving run there inPlace answered
    have loaded : leaving.program = built.program := Machine.Reaches.program_eq run
    obtain ⟨resumed, arrived, behind, resumes⟩ := resumes_caller returns loaded there inPlace low high answered
    exact ⟨resumed, arrived, behind.trans place, resumes⟩

/-- A program with a function that has no arguments. -/
def answering : List SourceFile :=
  [⟨"Main", "call f 0\nfunction f 0\npush constant 7\nreturn"⟩]

theorem operationsOf_answering (built : Built answering ⟨false, false⟩) :
    operationsOf built.commands = [some ("Main", .call "f" 0), some ("Main", .function "f" 0),
      some ("Main", .pushConstant 7), some ("Main", .ret)] := by
  have table : (readFiles answering).toOption.map operationsOf = some [some ("Main", .call "f" 0),
      some ("Main", .function "f" 0), some ("Main", .pushConstant 7), some ("Main", .ret)] := by decide +kernel
  rw [built.read] at table
  exact Option.some.inj table

theorem leads_answering (built : Built answering ⟨false, false⟩) (memory : Memory) :
    Leads built.program (built.start 1) memory (built.start 3) (memory.push 7) := by
  have opens : Means built.commands 1 "Main" (.function "f" 0) :=
    means_iff.mpr (by rw [operationsOf_answering]; rfl)
  have pushes : Means built.commands 2 "Main" (.pushConstant 7) :=
    means_iff.mpr (by rw [operationsOf_answering]; rfl)
  obtain ⟨body, _, opened, second⟩ := Built.stands_own opens
  obtain ⟨own, stands, pushed, third⟩ := Built.stands_own pushes
  have label : ∀ statement ∈ functionCode "f" 0, statement.Legal := by
    simp [functionCode, Statement.Legal, isSymbol, opensSymbol]
  have legal : ∀ emission, ∀ statement ∈ (Operation.pushConstant 7).code emission "Main", statement.Legal := by
    simp [Operation.code, pushD, pushComp, growStack, Statement.Legal, isSymbol, opensSymbol]
  have entry := opened.unique (reads_render label)
  have same := reads_of_legal (legal _) pushed built.linked stands.mem
  subst entry same
  have begun : built.start 2 = built.start 1 := second
  rw [third, ← begun]
  refine leads_of_perform built.linked stands (by simp [Operation.code, pushD, pushComp, growStack]) fun a d => ?_
  simp [Operation.code, Comp.value, Input.select]

/-- Without arguments the answer takes the place of the return address. -/
theorem call_returns_answering :
    ∃ built : Built answering ⟨false, false⟩, ∀ memory a d, memory.sp = 256 →
      ∃ resumed, Machine.Reaches ⟨memory, built.program, a, d, built.start 0⟩ resumed ∧
        resumed.pc = built.start 1 ∧ resumed.memory.sp = 257 ∧ resumed.memory.read 256 = 7 ∧
        ∀ base : Base, resumed.memory.read base.cell = memory.read base.cell := by
  have succeeds : (build answering ⟨false, false⟩).toOption.isSome = true := by decide +kernel
  obtain ⟨binary, succeeded⟩ := exists_ok_of_isSome succeeds
  obtain ⟨built, _⟩ := exists_built succeeded
  refine ⟨built, fun memory a d pointer => ?_⟩
  have calls : Means built.commands 0 "Main" (.call "f" 0) :=
    means_iff.mpr (by rw [operationsOf_answering]; rfl)
  have begins : Begins built.commands "f" 1 :=
    ⟨"Main", 0, means_iff.mpr (by rw [operationsOf_answering]; rfl)⟩
  have returns : Means built.commands 3 "Main" .ret :=
    means_iff.mpr (by rw [operationsOf_answering]; rfl)
  have low : 16 + 0 ≤ memory.sp.toNat := by
    rw [pointer]
    decide
  have high : memory.sp.toNat + 5 ≤ 32768 := by
    rw [pointer]
    decide
  obtain ⟨back, _, entered, reached, there, raised, framed, _, comes⟩ :=
    call_returns built calls begins returns low high a d
  obtain ⟨entry, program, a', d', pc⟩ := entered
  obtain rfl : program = built.program := reached.program_eq
  obtain rfl : pc = built.start 1 := there
  obtain ⟨a'', d'', ran⟩ := leads_answering built entry a' d'
  change entry.sp = memory.sp + 5 at raised
  rw [pointer] at raised
  have opened : entry.sp ≠ 0 := by
    rw [raised]
    decide
  have top : (entry.push 7).sp = 262 := by
    rw [Memory.sp_push opened, raised]
    rfl
  have above : memory.sp.toNat + 5 ≤ entry.sp.toNat := by
    rw [pointer, raised]
    decide
  have inPlace := framed.push low above 7
  have answered : memory.sp.toNat + 6 ≤ (entry.push 7).sp.toNat := by
    rw [pointer, top]
    decide
  obtain ⟨resumed, arrived, behind, resumes⟩ := comes _ ran rfl inPlace answered
  have answer := resumes.answer_eq
  rw [pointer, top, show (262 : Word) - 1 = entry.sp from raised.symm, Memory.read_push_top opened] at answer
  refine ⟨resumed, reached.trans (ran.trans arrived), behind, ?_, answer, resumes.pointer_eq⟩
  rw [resumes.sp_eq, pointer]
  rfl

end Hack.Stack
