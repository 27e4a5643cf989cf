import Hack.Text.Splitting

namespace Hack.CommandLine

open Hack.Text

abbrev Path := String

/-- The pieces of a path.  An absolute path begins with an empty piece, and a
path that ends in a slash ends with one. -/
def pieces (path : Path) : List String :=
  (stretches (· == '/') (path.toList ++ ['/'])).map String.ofList

def ofPieces (pieces : List String) : Path :=
  "/".intercalate pieces

/-- The pieces before the final name and the final name.  A path that leads to
a parent directory has none. -/
def splitFinalName? (path : Path) : Option (List String × String) :=
  match (pieces path).reverse.dropWhile fun piece => piece == "" || piece == "." with
  | [] => none
  | name :: before => if name = ".." then none else some (before.reverse, name)

/-- A name up to its last dot and what follows the dot.  A dot that begins the
name sets off no extension. -/
def splitExtension (name : String) : String × Option String :=
  let backwards := name.toList.reverse
  match backwards.dropWhile (· != '.') with
  | _ :: first :: before =>
      (String.ofList (first :: before).reverse, some (String.ofList (backwards.takeWhile (· != '.')).reverse))
  | _ => (name, none)

def stem (name : String) : String :=
  (splitExtension name).1

def extension? (name : String) : Option String :=
  (splitExtension name).2

/-- The final name of a path without its extension, or nothing. -/
def finalStem (path : Path) : String :=
  match splitFinalName? path with
  | some (_, name) => stem name
  | none => ""

/-- A final name with another extension.  The old extension is cut off behind
its dot first; where two dots are left, they lead to the parent directory and
take no extension. -/
def replaceExtension (name extension : String) : String :=
  if stem name = "." then ".." else stem name ++ "." ++ extension

/-- A path with another extension to its final name; what follows the name is
dropped.  A path without a final name stays as it is. -/
def withExtension (path : Path) (extension : String) : Path :=
  match splitFinalName? path with
  | some (before, name) => ofPieces (before ++ [replaceExtension name extension])
  | none => path

/-- The path of a name in a directory. -/
def join (directory : Path) (name : String) : Path :=
  if directory = "" ∨ directory.toList.getLast? = some '/' then directory ++ name
  else directory ++ "/" ++ name

end Hack.CommandLine
