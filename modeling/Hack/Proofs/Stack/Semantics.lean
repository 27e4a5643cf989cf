import Mathlib.Logic.Relation
import Hack.Machine
import Hack.Stack.Operation

namespace Hack

/-! What stack programs do.

A program is a list of commands that works on the data memory of the machine:
its stack, its segments and its pointers are cells there.  A state is the index
of a command and the memory, and steps go from one command to another.  Two
things are taken from the translation: the address that a call leaves on the
stack, and the cell that a static variable has.
-/

namespace Memory

/-- The address of the next free cell of the stack. -/
def sp (memory : Memory) : Word :=
  memory.read 0

def push (memory : Memory) (value : Word) : Memory :=
  let stored := memory.write memory.sp value
  stored.write 0 (stored.sp + 1)

/-- Takes one value off the stack.  The value stays in its cell. -/
def drop (memory : Memory) : Memory :=
  memory.write 0 (memory.sp - 1)

def top (memory : Memory) : Word :=
  memory.read memory.sp

def reserve (memory : Memory) : Nat → Memory
  | 0 => memory
  | count + 1 => (memory.push 0).reserve count

def save (memory : Memory) (cell : Word) : Memory :=
  memory.push (memory.read cell)

/-- The memory with which a function starts: the return address and the frame
of the caller are on the stack, and `ARG` and `LCL` lead to the frame of the
callee. -/
def call (memory : Memory) (returnAddress : Word) (arguments : Nat) : Memory :=
  let saved := ((((memory.push returnAddress).save 1).save 2).save 3).save 4
  let framed := saved.write 2 (saved.sp - BitVec.ofNat 16 (arguments + 5))
  framed.write 1 framed.sp

def returnAddress (memory : Memory) : Word :=
  memory.read (memory.read 1 - 5)

def restore (memory : Memory) (cell source : Word) : Memory :=
  memory.write cell (memory.read source)

/-- The memory with which the caller goes on: the returned value takes the
place of the arguments, and the pointers are what they were. -/
def leave (memory : Memory) : Memory :=
  let frame := memory.read 1
  let returned := memory.drop.write (memory.drop.read 2) memory.drop.top
  let shrunk := returned.write 0 (returned.read 2 + 1)
  (((shrunk.restore 4 (frame - 1)).restore 3 (frame - 2)).restore 2 (frame - 3)).restore 1 (frame - 4)

end Memory

namespace Stack

/-- The cell that points to a segment. -/
def Base.cell : Base → Word
  | .locals => 1
  | .arguments => 2
  | .this => 3
  | .that => 4

/-- What the semantics of a program takes from its translation. -/
structure Placement where
  /-- The number of the first instruction of a command. -/
  start : Nat → Nat
  /-- The cell of a variable of a file. -/
  static : String → Nat → Word

def Cell.address (static : String → Nat → Word) (file : String) (memory : Memory) : Cell → Word
  | .indirect base index => memory.read base.cell + BitVec.ofNat 16 index
  | .fixed address => BitVec.ofNat 16 address
  | .static index => static file index

/-- Truth values are all ones and all zeroes. -/
def truth (holds : Bool) : Word :=
  if holds then -1 else 0

/-- The value of an operation with two operands.  Comparisons look at the sign
of the difference, which wraps around. -/
def ArithmeticOp.combine (x y : Word) : ArithmeticOp → Word
  | .add => x + y
  | .sub => x - y
  | .and => x &&& y
  | .or => x ||| y
  | .eq => truth (x - y == 0)
  | .gt => truth (0 < (x - y).toInt)
  | .lt => truth ((x - y).toInt < 0)
  | .neg => -y
  | .not => ~~~y

def ArithmeticOp.isUnary : ArithmeticOp → Bool
  | .neg | .not => true
  | _ => false

def ArithmeticOp.apply (op : ArithmeticOp) (memory : Memory) : Memory :=
  if op.isUnary then memory.drop.push (op.combine 0 memory.drop.top)
  else memory.drop.drop.push (op.combine memory.drop.drop.top memory.drop.top)

/-- The command with this index means an operation. -/
def Means (commands : List Command) (index : Nat) (file : String) (operation : Operation) : Prop :=
  ∃ command, commands[index]? = some command ∧ command.operation = .ok operation ∧ command.file = file

/-- The function that a command begins. -/
def Command.opens? (command : Command) : Option String :=
  match command.operation with
  | .ok (.function name _) => some name
  | _ => none

/-- The function around a command: the last one that begins before it. -/
def enclosing (commands : List Command) (index : Nat) : Option String :=
  ((commands.take index).filterMap Command.opens?).getLast?

/-- The label that a jump from `index` to `name` leads to is the command `target`. -/
def Labels (commands : List Command) (index : Nat) (name : String) (target : Nat) : Prop :=
  (∃ file, Means commands target file (.label name)) ∧ enclosing commands target = enclosing commands index

def Begins (commands : List Command) (name : String) (target : Nat) : Prop :=
  ∃ file locals, Means commands target file (.function name locals)

structure State where
  index : Nat
  memory : Memory

inductive Step (commands : List Command) (placement : Placement) : State → State → Prop where
  | pushConstant {index memory file value} (means : Means commands index file (.pushConstant value)) :
      Step commands placement ⟨index, memory⟩ ⟨index + 1, memory.push (BitVec.ofNat 16 value)⟩
  | push {index memory file cell} (means : Means commands index file (.push cell)) :
      Step commands placement ⟨index, memory⟩
        ⟨index + 1, memory.push (memory.read (cell.address placement.static file memory))⟩
  | pop {index memory file cell} (means : Means commands index file (.pop cell)) :
      Step commands placement ⟨index, memory⟩
        ⟨index + 1, memory.drop.write (cell.address placement.static file memory) memory.drop.top⟩
  | arithmetic {index memory file op} (means : Means commands index file (.arithmetic op)) :
      Step commands placement ⟨index, memory⟩ ⟨index + 1, op.apply memory⟩
  | label {index memory file name} (means : Means commands index file (.label name)) :
      Step commands placement ⟨index, memory⟩ ⟨index + 1, memory⟩
  | goto {index memory file name target} (means : Means commands index file (.goto name))
      (labels : Labels commands index name target) :
      Step commands placement ⟨index, memory⟩ ⟨target, memory⟩
  | ifGotoTaken {index memory file name target} (means : Means commands index file (.ifGoto name))
      (labels : Labels commands index name target) (holds : memory.drop.top ≠ 0) :
      Step commands placement ⟨index, memory⟩ ⟨target, memory.drop⟩
  | ifGotoPassed {index memory file name} (means : Means commands index file (.ifGoto name))
      (fails : memory.drop.top = 0) :
      Step commands placement ⟨index, memory⟩ ⟨index + 1, memory.drop⟩
  | function {index memory file name locals} (means : Means commands index file (.function name locals)) :
      Step commands placement ⟨index, memory⟩ ⟨index + 1, memory.reserve locals⟩
  | call {index memory file name arguments target} (means : Means commands index file (.call name arguments))
      (begins : Begins commands name target) :
      Step commands placement ⟨index, memory⟩
        ⟨target, memory.call (BitVec.ofNat 16 (placement.start (index + 1))) arguments⟩
  | ret {index memory file target} (means : Means commands index file .ret)
      (within : target ≤ commands.length) (back : placement.start target = memory.returnAddress.toNat) :
      Step commands placement ⟨index, memory⟩ ⟨target, memory.leave⟩

/-- The cells which an operation is led to by a pointer and whose contents its
result depends on. -/
def Operation.consults (memory : Memory) : Operation → List Word
  | .push (.indirect base index) => [memory.read base.cell + BitVec.ofNat 16 index]
  | .pop _ | .ifGoto _ => [memory.drop.sp]
  | .arithmetic op => if op.isUnary then [memory.drop.sp] else [memory.drop.sp, memory.drop.drop.sp]
  | .ret =>
      memory.drop.sp :: memory.drop.read 2 ::
        [memory.read 1 - 1, memory.read 1 - 2, memory.read 1 - 3, memory.read 1 - 4, memory.read 1 - 5]
  | _ => []

/-- The cells in which the code of a command keeps addresses. -/
def scratch : List Word :=
  [13, 14]

/-- The scratch cells do not matter for what the command of a state does. -/
def Undisturbed (commands : List Command) (state : State) : Prop :=
  ∀ file operation, Means commands state.index file operation →
    ∀ cell ∈ operation.consults state.memory, cell ∉ scratch

/-- Steps that do not depend on the scratch cells, any number of them. -/
def Runs (commands : List Command) (placement : Placement) : State → State → Prop :=
  Relation.ReflTransGen fun before after =>
    Step commands placement before after ∧ Undisturbed commands before

def operationsOf (commands : List Command) : List (Option (String × Operation)) :=
  commands.map fun command => command.operation.toOption.map fun operation => (command.file, operation)

theorem means_iff {commands : List Command} {index : Nat} {file : String} {operation : Operation} :
    Means commands index file operation ↔ (operationsOf commands)[index]? = some (some (file, operation)) := by
  unfold Means operationsOf
  rw [List.getElem?_map]
  cases commands[index]? with
  | none => simp
  | some command =>
      cases read : command.operation with
      | error fault => simp [read, Except.toOption]
      | ok found => simp [read, Except.toOption, and_comm]

end Stack

end Hack
