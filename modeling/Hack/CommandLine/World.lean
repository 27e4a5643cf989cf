import Hack.CommandLine.Host

namespace Hack.CommandLine

/-- What a path can lead to. -/
inductive Node where
  | text (content : String)
  /-- A file whose bytes are no text. -/
  | bytes
  | directory
  /-- Takes what is written to it and stays empty. -/
  | sink
deriving DecidableEq, Repr

/-- The names that lead from the root to a node. -/
abbrev Location := List String

structure FileSystem where
  nodes : List (Location × Node)
deriving DecidableEq, Repr

namespace FileSystem

def node? (files : FileSystem) (location : Location) : Option Node :=
  if location.isEmpty then some .directory else files.nodes.lookup location

/-- Puts a text where nothing or a file was. -/
def store (files : FileSystem) (location : Location) (content : String) : FileSystem :=
  if (files.nodes.lookup location).isSome then
    ⟨files.nodes.map fun entry => if entry.1 = location then (location, .text content) else entry⟩
  else ⟨files.nodes ++ [(location, .text content)]⟩

def names (files : FileSystem) (location : Location) : List String :=
  files.nodes.filterMap fun (place, _) =>
    if place.dropLast = location then place.getLast? else none

/-- A name may have 255 bytes. -/
def maxName : Nat := 255

/-- A path has fewer bytes than this. -/
def pathLimit : Nat := 4096

/-- Finds one piece of a path in a directory. -/
def enter (files : FileSystem) (location : Location) (piece : String) :
    Except FileFailure Location :=
  match files.node? location with
  | none => .error .notFound
  | some .directory =>
      if piece = "" ∨ piece = "." then .ok location
      else if piece = ".." then .ok location.dropLast
      else if maxName < piece.utf8ByteSize then .error .nameTooLong
      else .ok (location ++ [piece])
  | some _ => .error .notDirectory

/-- The pieces of a path that can be looked at. -/
def checkedPieces (path : Path) : Except FileFailure (List String) :=
  if path = "" then .error .notFound
  else if pathLimit ≤ path.utf8ByteSize then .error .nameTooLong
  else .ok (pieces path)

/-- The location that a path leads to from a directory, and what is there. -/
def find (files : FileSystem) (start : Location) (path : Path) :
    Except FileFailure (Location × Node) := do
  let found ← (← checkedPieces path).foldlM files.enter (if path.startsWith "/" then [] else start)
  match files.node? found with
  | some node => .ok (found, node)
  | none => .error .notFound

/-- The location that a path offers for a file.  The directory must exist.  A
final slash or a final name of dots can only mean a directory, whatever else is
wrong with the name. -/
def findPlace (files : FileSystem) (start : Location) (path : Path) :
    Except FileFailure Location := do
  let all ← checkedPieces path
  match all.reverse.dropWhile (· == "") with
  | [] => .error .isDirectory
  | name :: before =>
      let parent ← before.reverse.foldlM files.enter (if path.startsWith "/" then [] else start)
      let directory ← files.enter parent "."
      if name = "." ∨ name = ".." ∨ all.getLast? = some "" then .error .isDirectory
      else files.enter directory name

def read (files : FileSystem) (start : Location) (path : Path) : Except FileFailure String := do
  match ← files.find start path with
  | (_, .text content) => .ok content
  | (_, .bytes) => .error .invalidText
  | (_, .directory) => .error .isDirectory
  | (_, .sink) => .ok ""

def write (files : FileSystem) (start : Location) (path : Path) (content : String) :
    Except FileFailure FileSystem := do
  let place ← files.findPlace start path
  match files.node? place with
  | some .directory => .error .isDirectory
  | some .sink => .ok files
  | _ => .ok (files.store place content)

end FileSystem

structure World where
  files : FileSystem
  /-- The directory in which relative paths start. -/
  directory : Location
  printed : String := ""
  reported : String := ""
deriving DecidableEq, Repr

namespace World

def find (world : World) (path : Path) : Except FileFailure (Location × Node) :=
  world.files.find world.directory path

def nodeAt? (world : World) (path : Path) : Option Node :=
  match world.find path with
  | .ok (_, node) => some node
  | .error _ => none

def entries (world : World) (path : Path) : Except FileFailure (List String) := do
  match ← world.find path with
  | (location, .directory) => .ok (world.files.names location)
  | _ => .error .notDirectory

def directoryName (world : World) (path : Path) : Option String :=
  match world.find path with
  | .ok (location, _) => location.getLast?
  | .error _ => none

def writeText (path : Path) (content : String) (world : World) : Except FileFailure Unit × World :=
  match world.files.write world.directory path content with
  | .ok files => (.ok (), { world with files := files })
  | .error failure => (.error failure, world)

end World

instance : Host (StateM World) where
  isDirectory path := return (← get).nodeAt? path == some .directory
  isFile path := return match (← get).nodeAt? path with
    | some (.text _) | some .bytes => true
    | _ => false
  entries path := return (← get).entries path
  directoryName path := return (← get).directoryName path
  readText path := return (← get).files.read (← get).directory path
  writeText path content := modifyGet (World.writeText path content)
  print text := modify fun world => { world with printed := world.printed ++ text }
  report text := modify fun world => { world with reported := world.reported ++ text }

end Hack.CommandLine
