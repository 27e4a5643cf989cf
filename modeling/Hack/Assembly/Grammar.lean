import Hack.Assembly.Statement
import Hack.Text.Decimal
import Hack.Text.Splitting

namespace Hack.Assembly

open Hack.Text

/-- Numerals above this value are read as this value, which is far from any
address already. -/
def maxLiteral : Nat := 0xFFFFFFFFFFFFFFFF

def opensSymbol (c : Char) : Bool :=
  c.isAlpha || c == '_' || c == '.' || c == '$' || c == ':'

/-- Symbols are letters, digits and four marks; the first character is no digit. -/
def isSymbol : List Char → Bool
  | [] => false
  | first :: rest => opensSymbol first && rest.all fun c => opensSymbol c || c.isDigit

def readSymbol (name : List Char) : Except Fault String :=
  if isSymbol name then .ok (String.ofList name) else .error (.invalidSymbol (String.ofList name))

def readOperand (text : List Char) : Except Fault Operand :=
  match natural? text with
  | some value => .ok (.literal (min value maxLiteral))
  | none => (readSymbol text).map .symbol

/-- The rest of a line after its opening parenthesis, read as a label. -/
def readLabel (rest : List Char) : Except Fault Statement :=
  if rest.getLast? = some ')' then (readSymbol rest.dropLast).map .label
  else .error (.invalidSymbol (String.ofList ('(' :: rest)))

/-- A field that is set off by a mark may not be empty, although the empty
mnemonic has a meaning where the mark is missing. -/
def readMarked {α : Type} (field : Field) (read : String → Except Fault α) (absent : α) :
    Option (List Char) → Except Fault α
  | none => .ok absent
  | some [] => .error (.invalidMnemonic field "")
  | some token => read (String.ofList token)

/-- The destination ends at the first `=` and the jump begins after the first
`;` that follows.  The fields are judged from left to right. -/
def readCompute (text : List Char) : Except Fault Instruction := do
  let (dest, afterDest) := match cutAt? '=' text with
    | some (dest, rest) => (some dest, rest)
    | none => (none, text)
  let (comp, jump) := match cutAt? ';' afterDest with
    | some (comp, jump) => (comp, some jump)
    | none => (afterDest, none)
  let dest ← readMarked .dest readDest .nowhere dest
  let comp ← readComp (String.ofList comp)
  let jump ← readMarked .jump readJump .never jump
  return .compute dest comp jump

def readStatement : List Char → Except Fault Statement
  | '(' :: rest => readLabel rest
  | '@' :: rest => (readOperand rest).map fun operand => .instruction (.address operand)
  | text => (readCompute text).map .instruction

end Hack.Assembly
