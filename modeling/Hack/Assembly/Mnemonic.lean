import Hack.Error
import Hack.Word

namespace Hack.Assembly

/-- The second input of the arithmetic unit: register A or the memory cell that
A addresses.  The first input is always register D. -/
inductive Input where
  | a
  | m
deriving DecidableEq, Repr

/-- What the arithmetic unit computes. -/
inductive Comp where
  | zero
  | one
  | minusOne
  | d
  | notD
  | negD
  | incD
  | decD
  | load (y : Input)
  | not (y : Input)
  | neg (y : Input)
  | inc (y : Input)
  | dec (y : Input)
  | add (y : Input)
  | sub (y : Input)
  | subFrom (y : Input)
  | and (y : Input)
  | or (y : Input)
deriving DecidableEq, Repr

namespace Comp

def all : List Comp :=
  [zero, one, minusOne, d, notD, negD, incD, decD] ++
    [Input.a, Input.m].flatMap fun y =>
      [load y, not y, neg y, inc y, dec y, add y, sub y, subFrom y, and y, or y]

def mnemonic : Comp → String
  | zero => "0"
  | one => "1"
  | minusOne => "-1"
  | d => "D"
  | notD => "!D"
  | negD => "-D"
  | incD => "D+1"
  | decD => "D-1"
  | load .a => "A"
  | load .m => "M"
  | not .a => "!A"
  | not .m => "!M"
  | neg .a => "-A"
  | neg .m => "-M"
  | inc .a => "A+1"
  | inc .m => "M+1"
  | dec .a => "A-1"
  | dec .m => "M-1"
  | add .a => "D+A"
  | add .m => "D+M"
  | sub .a => "D-A"
  | sub .m => "D-M"
  | subFrom .a => "A-D"
  | subFrom .m => "M-D"
  | and .a => "D&A"
  | and .m => "D&M"
  | or .a => "D|A"
  | or .m => "D|M"

/-- The input that an operation reads.  Operations without a second input are
encoded as if they read A. -/
def input : Comp → Input
  | zero | one | minusOne | d | notD | negD | incD | decD => .a
  | load y | not y | neg y | inc y | dec y | add y | sub y | subFrom y | and y | or y => y

/-- The control bits of the arithmetic unit, from high to low: zero the first
input, negate it, zero the second, negate it, add rather than conjoin, negate
the output. -/
def control : Comp → BitVec 6
  | zero => 0b101010
  | one => 0b111111
  | minusOne => 0b111010
  | d => 0b001100
  | notD => 0b001101
  | negD => 0b001111
  | incD => 0b011111
  | decD => 0b001110
  | load _ => 0b110000
  | not _ => 0b110001
  | neg _ => 0b110011
  | inc _ => 0b110111
  | dec _ => 0b110010
  | add _ => 0b000010
  | sub _ => 0b010011
  | subFrom _ => 0b000111
  | and _ => 0b000000
  | or _ => 0b010101

def bits (comp : Comp) : BitVec 7 :=
  BitVec.ofBool (comp.input == .m) ++ comp.control

def ofMnemonic? (token : String) : Option Comp :=
  all.find? fun comp => comp.mnemonic == token

theorem mem_all (comp : Comp) : comp ∈ all := by
  rcases comp <;> (try rename_i y; cases y) <;> decide

theorem ofMnemonic?_mnemonic (comp : Comp) : ofMnemonic? comp.mnemonic = some comp := by
  rcases comp <;> (try rename_i y; cases y) <;> decide

theorem mnemonic_of_ofMnemonic? {token : String} {comp : Comp}
    (read : ofMnemonic? token = some comp) : comp.mnemonic = token := by
  simpa using List.find?_some read

end Comp

/-- Where the output goes. -/
structure Dest where
  writesA : Bool := false
  writesD : Bool := false
  writesM : Bool := false
deriving DecidableEq, Repr

namespace Dest

def nowhere : Dest := {}
def a : Dest := { writesA := true }
def d : Dest := { writesD := true }
def m : Dest := { writesM := true }
def am : Dest := { writesA := true, writesM := true }

def all : List Dest :=
  [false, true].flatMap fun toA => [false, true].flatMap fun toD => [false, true].map fun toM =>
    ⟨toA, toD, toM⟩

/-- Registers are named in the order A, M, D; the bits have D before M. -/
def mnemonic (dest : Dest) : String :=
  (if dest.writesA then "A" else "") ++ (if dest.writesM then "M" else "") ++
    (if dest.writesD then "D" else "")

def bits (dest : Dest) : BitVec 3 :=
  BitVec.ofBool dest.writesA ++ BitVec.ofBool dest.writesD ++ BitVec.ofBool dest.writesM

def ofMnemonic? (token : String) : Option Dest :=
  all.find? fun dest => dest.mnemonic == token

theorem mem_all (dest : Dest) : dest ∈ all := by
  rcases dest with ⟨_ | _, _ | _, _ | _⟩ <;> decide

theorem ofMnemonic?_mnemonic (dest : Dest) : ofMnemonic? dest.mnemonic = some dest := by
  rcases dest with ⟨_ | _, _ | _, _ | _⟩ <;> decide

theorem mnemonic_of_ofMnemonic? {token : String} {dest : Dest}
    (read : ofMnemonic? token = some dest) : dest.mnemonic = token := by
  simpa using List.find?_some read

end Dest

/-- The signs of the output for which a jump is taken. -/
structure Jump where
  ifNegative : Bool := false
  ifZero : Bool := false
  ifPositive : Bool := false
deriving DecidableEq, Repr

namespace Jump

def never : Jump := {}
def always : Jump := ⟨true, true, true⟩
def equal : Jump := { ifZero := true }
def notEqual : Jump := { ifNegative := true, ifPositive := true }
def greater : Jump := { ifPositive := true }
def less : Jump := { ifNegative := true }

def all : List Jump :=
  [false, true].flatMap fun lt => [false, true].flatMap fun eq => [false, true].map fun gt =>
    ⟨lt, eq, gt⟩

def mnemonic : Jump → String
  | ⟨false, false, false⟩ => ""
  | ⟨false, false, true⟩ => "JGT"
  | ⟨false, true, false⟩ => "JEQ"
  | ⟨false, true, true⟩ => "JGE"
  | ⟨true, false, false⟩ => "JLT"
  | ⟨true, false, true⟩ => "JNE"
  | ⟨true, true, false⟩ => "JLE"
  | ⟨true, true, true⟩ => "JMP"

def bits (jump : Jump) : BitVec 3 :=
  BitVec.ofBool jump.ifNegative ++ BitVec.ofBool jump.ifZero ++ BitVec.ofBool jump.ifPositive

def ofMnemonic? (token : String) : Option Jump :=
  all.find? fun jump => jump.mnemonic == token

theorem mem_all (jump : Jump) : jump ∈ all := by
  rcases jump with ⟨_ | _, _ | _, _ | _⟩ <;> decide

theorem ofMnemonic?_mnemonic (jump : Jump) : ofMnemonic? jump.mnemonic = some jump := by
  rcases jump with ⟨_ | _, _ | _, _ | _⟩ <;> decide

theorem mnemonic_of_ofMnemonic? {token : String} {jump : Jump}
    (read : ofMnemonic? token = some jump) : jump.mnemonic = token := by
  simpa using List.find?_some read

end Jump

/-- The value of a field, or the fault that its mnemonic is none. -/
def readField {α : Type} (field : Field) (ofMnemonic? : String → Option α) (token : String) :
    Except Fault α :=
  match ofMnemonic? token with
  | some value => .ok value
  | none => .error (.invalidMnemonic field token)

def readComp : String → Except Fault Comp := readField .comp Comp.ofMnemonic?
def readDest : String → Except Fault Dest := readField .dest Dest.ofMnemonic?
def readJump : String → Except Fault Jump := readField .jump Jump.ofMnemonic?

end Hack.Assembly
