import Hack.CommandLine.Run

namespace Hack.CommandLine

/-- A failure by its number in the system.  Some calls give the number with a
negative sign. -/
def FileFailure.ofSystem (code : UInt32) (details : String) : FileFailure :=
  let number := if code < 0x80000000 then code else 0 - code
  match number with
  | 2 => .notFound
  | 20 => .notDirectory
  | 21 => .isDirectory
  | 36 => .nameTooLong
  | _ => .other s!"{details} (os error {number})"

def FileFailure.ofError : IO.Error → FileFailure
  | .noFileOrDirectory _ code details => ofSystem code details
  | .inappropriateType _ code details => ofSystem code details
  | .permissionDenied _ code details => ofSystem code details
  | .invalidArgument _ code details => ofSystem code details
  | .resourceExhausted _ code details => ofSystem code details
  | .alreadyExists _ code details => ofSystem code details
  | .noSuchThing _ code details => ofSystem code details
  | .otherError code details => ofSystem code details
  | error => .other (toString error)

/-- The result of an action, or a value for when it fails. -/
def orElse {α : Type} (fallback : α) (action : IO α) : IO α :=
  try action catch _ => return fallback

def attempt {α : Type} (action : IO α) : IO (Except FileFailure α) :=
  try return .ok (← action) catch error => return .error (.ofError error)

instance : Host IO where
  isDirectory path := orElse false do (← IO.FS.realPath path).isDir
  isFile path := orElse false do return (← (← IO.FS.realPath path).metadata).type == .file
  entries path := attempt do
    return (← (← IO.FS.realPath path).readDir).toList.map fun entry => entry.fileName
  directoryName path := orElse none do return (← IO.FS.realPath path).fileName
  readText path := do
    match ← attempt (IO.FS.readBinFile path) with
    | .error failure => return .error failure
    | .ok bytes =>
        match String.fromUTF8? bytes with
        | some text => return .ok text
        | none => return .error .invalidText
  writeText path content := attempt (IO.FS.writeFile path content)
  print text := do (← IO.getStdout).putStr text
  report text := do (← IO.getStderr).putStr text

end Hack.CommandLine

def main (words : List String) : IO UInt32 :=
  Hack.CommandLine.run words
