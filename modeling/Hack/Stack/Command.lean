import Hack.Error

namespace Hack.Stack

inductive ArithmeticOp where
  | add
  | sub
  | neg
  | eq
  | gt
  | lt
  | and
  | or
  | not
deriving DecidableEq, Repr

inductive CommandKind where
  | push
  | pop
  | label
  | goto
  | ifGoto
  | function
  | call
  | ret
  | arithmetic (op : ArithmeticOp)
deriving DecidableEq, Repr

def ArithmeticOp.keyword : ArithmeticOp → String
  | .add => "add"
  | .sub => "sub"
  | .neg => "neg"
  | .eq => "eq"
  | .gt => "gt"
  | .lt => "lt"
  | .and => "and"
  | .or => "or"
  | .not => "not"

namespace CommandKind

def keyword : CommandKind → String
  | push => "push"
  | pop => "pop"
  | label => "label"
  | goto => "goto"
  | ifGoto => "if-goto"
  | function => "function"
  | call => "call"
  | ret => "return"
  | arithmetic op => op.keyword

def all : List CommandKind :=
  [push, pop, label, goto, ifGoto, function, call, ret] ++
    [.add, .sub, .neg, .eq, .gt, .lt, .and, .or, .not].map arithmetic

def ofKeyword? (token : String) : Option CommandKind :=
  all.find? fun kind => kind.keyword == token

theorem ofKeyword?_keyword (kind : CommandKind) : ofKeyword? kind.keyword = some kind := by
  rcases kind with _ | _ | _ | _ | _ | _ | _ | _ | op
  case arithmetic => cases op <;> decide
  all_goals decide

theorem keyword_of_ofKeyword? {token : String} {kind : CommandKind}
    (read : ofKeyword? token = some kind) : kind.keyword = token := by
  simpa using List.find?_some read

end CommandKind

/-- A command and where it stands. -/
structure Command where
  kind : CommandKind
  /-- The word after the keyword: a segment, a label or a function. -/
  name : Option String
  /-- The number after the name: an index or a count. -/
  number : Option Nat
  file : String
  line : Nat
  /-- The whole command as written, without comment and surrounding blanks. -/
  text : String
deriving DecidableEq, Repr

/-- Puts the place of a command to a fault.  That an address is too high is a
fault of the assembly program, which has no files, so it names the line alone. -/
def Command.blame (command : Command) (fault : Fault) : Error :=
  match fault with
  | .addressOverflow _ => ⟨.line command.line, fault⟩
  | _ => ⟨.inFile command.file command.line, fault⟩

end Hack.Stack
