import Hack.Assembly.Grammar

namespace Hack.Assembly

open Hack.Text

/-- A line with its number in the source, counted from one. -/
structure SourceLine where
  number : Nat
  text : String
deriving DecidableEq, Repr

/-- A line without blanks and comment.  The blanks go first, so slashes that
only blanks keep apart open a comment too. -/
def cleanLine (line : List Char) : List Char :=
  beforeComment (line.filter fun c => !isBlank c)

/-- The lines of a source that hold more than blanks and comments. -/
def clean (source : String) : List SourceLine :=
  ((lines source.toList).zipIdx 1).filterMap fun (line, number) =>
    let text := cleanLine line
    if text.isEmpty then none else some ⟨number, String.ofList text⟩

/-- The cleaned source as a text, which has no line feed at its end. -/
def preprocess (source : String) : String :=
  "\n".intercalate ((clean source).map SourceLine.text)

/-- A line that has been read. -/
structure ParsedLine extends SourceLine where
  statement : Statement
deriving DecidableEq, Repr

def SourceLine.parse (line : SourceLine) : Except Error ParsedLine := do
  let statement ← (Place.line line.number).blame (readStatement line.text.toList)
  return { line with statement }

/-- Reads all lines, up to the first that is no statement. -/
def parseLines (source : List SourceLine) : Except Error (List ParsedLine) :=
  source.mapM SourceLine.parse

end Hack.Assembly
