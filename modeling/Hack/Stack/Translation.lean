import Hack.Stack.Lowering
import Hack.Stack.Source

namespace Hack.Stack

open Hack.Assembly Hack.Text

/-- The lines of an assembly text that occupy an instruction slot: those that
are not blank and begin neither a label nor a comment. -/
def countInstructions (code : String) : Nat :=
  (lines code.toList).countP fun line =>
    match trim line with
    | [] => false
    | '(' :: _ => false
    | '/' :: '/' :: _ => false
    | _ => true

/-- The emission after the code of an operation. -/
def Emission.advance (emission : Emission) (operation : Operation) (code : String) : Emission where
  emitted := emission.emitted + countInstructions code
  returns := match operation with
    | .call _ _ => emission.returns + 1
    | _ => emission.returns
  enclosing := match operation with
    | .function name _ => some name
    | _ => emission.enclosing

def Emission.emit (emission : Emission) (file : String) (operation : Operation) : String × Emission :=
  let code := Statement.render (operation.code emission file)
  (code, emission.advance operation code)

structure Config where
  /-- Begin with code that sets up the stack and calls `Sys.init`. -/
  bootstrap : Bool := false
  /-- Put each command as a comment before its code. -/
  annotate : Bool := false
deriving DecidableEq, Repr

/-- The code of a command.  A comment does not count as emitted; a command that
fails emits nothing. -/
def Emission.generate (emission : Emission) (annotate : Bool) (command : Command) :
    Except Error (String × Emission) := do
  let operation ← command.operation
  let (code, after) := emission.emit command.file operation
  let comment := if annotate then "// " ++ command.text ++ "\n" else ""
  return (comment ++ code, after)

/-- The address of the first cell of the stack. -/
def stackBase : Nat := 256

/-- Code that points `SP` to the stack and calls `Sys.init`. -/
def Emission.bootstrap (emission : Emission) : String × Emission :=
  let setup := Statement.render [atNumber stackBase, set .d (.load .a), atName "SP", set .m .d]
  let start := { emission with emitted := emission.emitted + countInstructions setup }
  let (call, after) := start.emit "Bootstrap" (.call "Sys.init" 0)
  (setup ++ call, after)

/-- The code of commands one after the other. -/
def generateAll (annotate : Bool) (commands : List Command) :
    StateT Emission (Except Error) (List String) :=
  commands.mapM fun command emission => emission.generate annotate command

/-- The assembly text of commands, and how far the emission came. -/
def translateCommands (config : Config) (commands : List Command) :
    Except Error (String × Emission) := do
  let (opening, start) := if config.bootstrap then Emission.bootstrap {} else ("", {})
  let (pieces, after) ← (generateAll config.annotate commands).run start
  return (String.join (opening :: pieces), after)

def translate (files : List SourceFile) (config : Config) : Except Error String := do
  let commands ← readFiles files
  let (text, _) ← translateCommands config commands
  return text

end Hack.Stack
