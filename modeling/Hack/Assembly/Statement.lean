import Hack.Assembly.Mnemonic

namespace Hack.Assembly

/-- What an address instruction loads: a number as written, or the address that
a name stands for. -/
inductive Operand where
  | literal (value : Nat)
  | symbol (name : String)
deriving DecidableEq, Repr

inductive Instruction where
  | address (operand : Operand)
  | compute (dest : Dest) (comp : Comp) (jump : Jump)
deriving DecidableEq, Repr

/-- A label occupies no instruction slot; it names the instruction after it. -/
inductive Statement where
  | label (name : String)
  | instruction (body : Instruction)
deriving DecidableEq, Repr

def Operand.text : Operand → String
  | .literal value => toString value
  | .symbol name => name

/-- The empty destination and the jump that is never taken are left out together
with the mark that would set them off. -/
def Instruction.text : Instruction → String
  | .address operand => "@" ++ operand.text
  | .compute dest comp jump =>
      (if dest = .nowhere then "" else dest.mnemonic ++ "=") ++ comp.mnemonic ++
        (if jump = .never then "" else ";" ++ jump.mnemonic)

def Statement.text : Statement → String
  | .label name => "(" ++ name ++ ")"
  | .instruction body => body.text

/-- Statements as source text, one a line. -/
def Statement.render (statements : List Statement) : String :=
  String.join (statements.map fun statement => statement.text ++ "\n")

@[simp] theorem Statement.render_nil : Statement.render [] = "" := rfl

@[simp] theorem Statement.render_cons (first : Statement) (rest : List Statement) :
    Statement.render (first :: rest) = first.text ++ "\n" ++ Statement.render rest := by
  simp [Statement.render, String.join_cons]

theorem Statement.render_append (first second : List Statement) :
    Statement.render (first ++ second) = Statement.render first ++ Statement.render second := by
  induction first with
  | nil => simp
  | cons statement rest ih => simp [ih, String.append_assoc]

end Hack.Assembly
