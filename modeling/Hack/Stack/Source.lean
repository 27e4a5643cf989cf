import Hack.Stack.Command
import Hack.Text.Decimal
import Hack.Text.Splitting

namespace Hack.Stack

open Hack.Text

structure SourceFile where
  /-- The name of the file without its extension; it qualifies static variables. -/
  name : String
  text : String
deriving DecidableEq, Repr

/-- The greatest number that can be written in a command. -/
def maxNumber : Nat := 65535

/-- The number in a command, if there is one. -/
def readNumber : Option (List Char) → Except Fault (Option Nat)
  | none => .ok none
  | some token =>
      match naturalUpTo? maxNumber token with
      | some value => .ok (some value)
      | none => .error (.invalidArgument (String.ofList token))

/-- A line without its comment and the blanks around the rest. -/
def commandText (line : List Char) : List Char :=
  trim (beforeComment line)

/-- The command in a line, if the line holds one.  Words after the third are
ignored. -/
def readLine (file : String) (number : Nat) (line : List Char) : Except Error (Option Command) :=
  let text := commandText line
  match words text with
  | [] => .ok none
  | keyword :: arguments =>
      (Place.inFile file number).blame do
        match CommandKind.ofKeyword? (String.ofList keyword) with
        | none => .error (.unknownCommand (String.ofList text))
        | some kind =>
            let value ← readNumber arguments[1]?
            return some
              { kind := kind
                name := arguments[0]?.map String.ofList
                number := value
                file := file
                line := number
                text := String.ofList text }

/-- The commands of a file, in order. -/
def readFile (file : SourceFile) : Except Error (List Command) := do
  let found ← ((lines file.text.toList).zipIdx 1).mapM fun (line, number) =>
    readLine file.name number line
  return found.filterMap id

/-- The commands of all files, in order, up to the first line that is none. -/
def readFiles (files : List SourceFile) : Except Error (List Command) := do
  let commands ← files.mapM readFile
  return commands.flatten

end Hack.Stack
