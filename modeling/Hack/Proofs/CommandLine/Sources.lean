import Hack.Proofs.CommandLine.Directories
import Hack.Proofs.CommandLine.Running

namespace Hack.CommandLine

open Hack.Stack Hack.Text

variable {world : World} {input : Path} {location : Location} {names others : List String} {name : String}
variable {sources : List SourceFile}

namespace World

/-- The names of the stack programs that a run finds in a directory.  The path
that it finds a program by starts with the path of the directory, and a path that
is too long leads nowhere. -/
structure Lists (world : World) (input : Path) (location : Location) (names : List String) : Prop where
  ascending : names.Pairwise (· < ·)
  complete : ∀ name, name ∈ names ↔ extension? name = some "vm" ∧ world.files.IsRegular (location ++ [name]) ∧
    (join input name).utf8ByteSize < FileSystem.pathLimit

section Members

variable (found : world.find input = .ok (location, .directory)) (named : IsFileName name)

include found named

end Members

theorem Lists.eq (one : world.Lists input location names) (other : world.Lists input location others) : names = others := by
  have apart : ∀ {name other : String}, name < other → name ≠ other := by
    rintro name _ below rfl
    exact String.lt_irrefl name below
  have same : names.Perm others :=
    (List.perm_ext_iff_of_nodup (one.ascending.imp apart) (other.ascending.imp apart)).mpr
      fun name => (one.complete name).trans (other.complete name).symm
  exact same.eq_of_pairwise (fun _ _ _ _ below above => absurd above (String.lt_asymm below)) one.ascending other.ascending

end World

end Hack.CommandLine
