import Hack.CommandLine.Path

namespace Hack.CommandLine

/-- Why a file could not be read or written. -/
inductive FileFailure where
  | notFound
  | notDirectory
  | isDirectory
  | nameTooLong
  | invalidText
  | other (text : String)
deriving DecidableEq, Repr

def FileFailure.message : FileFailure → String
  | .notFound => "No such file or directory (os error 2)"
  | .notDirectory => "Not a directory (os error 20)"
  | .isDirectory => "Is a directory (os error 21)"
  | .nameTooLong => "File name too long (os error 36)"
  | .invalidText => "stream did not contain valid UTF-8"
  | .other text => text

/-- A file system and two output streams. -/
class Host (m : Type → Type) where
  isDirectory : Path → m Bool
  isFile : Path → m Bool
  /-- The names in a directory, in no particular order. -/
  entries : Path → m (Except FileFailure (List String))
  /-- The name that a directory has in its parent, however the path leads to it. -/
  directoryName : Path → m (Option String)
  readText : Path → m (Except FileFailure String)
  writeText : Path → String → m (Except FileFailure Unit)
  print : String → m Unit
  report : String → m Unit

/-- A run that can end early uses the same surroundings. -/
instance {m : Type → Type} {ε : Type} [Monad m] [Host m] : Host (ExceptT ε m) where
  isDirectory path := ExceptT.lift (Host.isDirectory path)
  isFile path := ExceptT.lift (Host.isFile path)
  entries path := ExceptT.lift (Host.entries path)
  directoryName path := ExceptT.lift (Host.directoryName path)
  readText path := ExceptT.lift (Host.readText path)
  writeText path content := ExceptT.lift (Host.writeText path content)
  print text := ExceptT.lift (Host.print text)
  report text := ExceptT.lift (Host.report text)

end Hack.CommandLine
