import Hack.Assembly.Statement
import Hack.Stack.Operation

namespace Hack.Stack

/-! The assembly code of each operation.

The stack grows upwards from the cell that `SP` points to, which is the next
free one.  Values travel through register D: a push writes D on top of the
stack, a pop leaves the old top in D.  `R13` and `R14` are scratch cells.
-/

open Hack.Assembly

/-- Loads a number. -/
def atNumber (value : Nat) : Statement :=
  .instruction (.address (.literal value))

/-- Loads the address of a name. -/
def atName (name : String) : Statement :=
  .instruction (.address (.symbol name))

def set (dest : Dest) (comp : Comp) : Statement :=
  .instruction (.compute dest comp .never)

def jumpIf (comp : Comp) (jump : Jump) : Statement :=
  .instruction (.compute .nowhere comp jump)

def gotoA : Statement := jumpIf .zero .always

/-- Makes room for one value on the stack. -/
def growStack : List Statement :=
  [atName "SP", set .m (.inc .m)]

/-- Pushes what `value` is set to. -/
def pushComp (value : Comp) : List Statement :=
  [atName "SP", set .a (.load .m), set .m value] ++ growStack

def pushD : List Statement := pushComp .d

/-- Takes one value off the stack without looking at it. -/
def dropTop : List Statement :=
  [atName "SP", set .m (.dec .m)]

def popD : List Statement :=
  dropTop ++ [set .a (.load .m), set .d (.load .m)]

/-- Replaces the two values on top of the stack by one.  The first pop leaves
the upper one in D, and A comes to point to the lower one. -/
def binary (comp : Comp) : List Statement :=
  popD ++ dropTop ++ [set .a (.load .m), set .d comp] ++ pushD

def unary (comp : Comp) : List Statement :=
  popD ++ [set .d comp] ++ pushD

/-- The position of `D=-1` in the code of a comparison. -/
def comparisonTrueOffset : Nat := 13

/-- The position of the closing push in the code of a comparison. -/
def comparisonFalseOffset : Nat := 14

/-- Compares the two values on top of the stack by the sign of their difference.
The jumps are to absolute instruction numbers: `start` is the number of the
first instruction of this code. -/
def comparison (start : Nat) (jump : Jump) : List Statement :=
  popD ++ dropTop ++
    [set .a (.load .m), set .d (.subFrom .m),
     atNumber (start + comparisonTrueOffset), jumpIf .d jump,
     set .d .zero,
     atNumber (start + comparisonFalseOffset), gotoA,
     set .d .minusOne] ++ pushD

def ArithmeticOp.code (start : Nat) : ArithmeticOp → List Statement
  | .add => binary (.add .m)
  | .sub => binary (.subFrom .m)
  | .and => binary (.and .m)
  | .or => binary (.or .m)
  | .neg => unary .negD
  | .not => unary .notD
  | .eq => comparison start .equal
  | .gt => comparison start .greater
  | .lt => comparison start .less

/-- The name of a variable of a file. -/
def staticSymbol (file : String) (index : Nat) : String :=
  file ++ "." ++ toString index

/-- Loads the value of a cell into D. -/
def Cell.load (file : String) : Cell → List Statement
  | .indirect base index =>
      [atName base.pointer, set .d (.load .m), atNumber index, set .a (.add .a), set .d (.load .m)]
  | .fixed address => [atNumber address, set .d (.load .m)]
  | .static index => [atName (staticSymbol file index), set .d (.load .m)]

/-- Pops the top of the stack into a cell.  An address that has to be computed
is kept in a scratch cell, for the pop needs both registers. -/
def Cell.store (file : String) : Cell → List Statement
  | .indirect base index =>
      [atName base.pointer, set .d (.load .m), atNumber index, set .d (.add .a),
       atName "R13", set .m .d] ++ popD ++ [atName "R13", set .a (.load .m), set .m .d]
  | .fixed address => popD ++ [atNumber address, set .m .d]
  | .static index => popD ++ [atName (staticSymbol file index), set .m .d]

def functionCode (name : String) (locals : Nat) : List Statement :=
  .label name :: (List.replicate locals (pushComp .zero)).flatten

/-- Saves the frame of the caller, gives the callee its own, and jumps to it.
The callee comes back to the label at the end. -/
def callCode (name returnLabel : String) (arguments : Nat) : List Statement :=
  [atName returnLabel, set .d (.load .a)] ++ pushD ++
    (["LCL", "ARG", "THIS", "THAT"].flatMap fun pointer =>
      [atName pointer, set .d (.load .m)] ++ pushD) ++
    [atName "SP", set .d (.load .m), atNumber (arguments + 5), set .d (.sub .a),
     atName "ARG", set .m .d,
     atName "SP", set .d (.load .m), atName "LCL", set .m .d,
     atName name, gotoA,
     .label returnLabel]

/-- Gives the caller its frame back, with the returned value on top of its
stack.  The return address is saved first: where there are no arguments, the
returned value takes its cell. -/
def returnCode : List Statement :=
  [atName "LCL", set .d (.load .m), atName "R13", set .m .d,
   atNumber 5, set .a (.sub .a), set .d (.load .m), atName "R14", set .m .d] ++
    popD ++
    [atName "ARG", set .a (.load .m), set .m .d,
     atName "ARG", set .d (.inc .m), atName "SP", set .m .d] ++
    (["THAT", "THIS", "ARG", "LCL"].flatMap fun pointer =>
      [atName "R13", set .am (.dec .m), set .d (.load .m), atName pointer, set .m .d]) ++
    [atName "R14", set .a (.load .m), gotoA]

/-- How far a translation has come. -/
structure Emission where
  /-- The instructions emitted so far, hence the number of the next one. -/
  emitted : Nat := 0
  /-- The return labels handed out so far. -/
  returns : Nat := 0
  /-- The function whose body is being translated. -/
  enclosing : Option String := none
deriving DecidableEq, Repr

/-- Labels belong to the function around them. -/
def Emission.qualify (emission : Emission) (label : String) : String :=
  match emission.enclosing with
  | some function => function ++ "$" ++ label
  | none => label

/-- The label to which the next call returns.  Outside of every function it is
named after the file. -/
def Emission.returnLabel (emission : Emission) (file : String) : String :=
  emission.enclosing.getD file ++ "$ret." ++ toString emission.returns

def Operation.code (emission : Emission) (file : String) : Operation → List Statement
  | .pushConstant value => [atNumber value, set .d (.load .a)] ++ pushD
  | .push cell => cell.load file ++ pushD
  | .pop cell => cell.store file
  | .arithmetic op => op.code emission.emitted
  | .label name => [.label (emission.qualify name)]
  | .goto name => [atName (emission.qualify name), gotoA]
  | .ifGoto name => popD ++ [atName (emission.qualify name), jumpIf .d .notEqual]
  | .function name locals => functionCode name locals
  | .call name arguments => callCode name (emission.returnLabel file) arguments
  | .ret => returnCode

end Hack.Stack
