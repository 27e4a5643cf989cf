import Hack.Proofs.CommandLine.Files

namespace Hack.CommandLine

open Hack.Text

variable {files : FileSystem} {start location place : Location} {front directory path : Path} {name : String}

/-- A name that a file or a directory can have. -/
structure IsFileName (name : String) : Prop where
  nonempty : name ≠ ""
  noDot : name ≠ "."
  noDots : name ≠ ".."
  noSlash : '/' ∉ name.toList
  short : name.utf8ByteSize ≤ FileSystem.maxName

instance (name : String) : Decidable (IsFileName name) :=
  decidable_of_iff
    (name ≠ "" ∧ name ≠ "." ∧ name ≠ ".." ∧ '/' ∉ name.toList ∧ name.utf8ByteSize ≤ FileSystem.maxName)
    ⟨fun held => ⟨held.1, held.2.1, held.2.2.1, held.2.2.2.1, held.2.2.2.2⟩,
      fun named => ⟨named.nonempty, named.noDot, named.noDots, named.noSlash, named.short⟩⟩

theorem noSlash_of_mem_pieces (member : name ∈ pieces path) : '/' ∉ name.toList := by
  obtain ⟨stretch, inside, rfl⟩ := List.mem_map.mp member
  intro slash
  rw [String.toList_ofList] at slash
  exact absurd (not_closes_of_mem_stretches inside '/' slash) (by decide)

namespace FileSystem

/-- A regular file, whether its bytes are text or not. -/
def IsRegular (files : FileSystem) (location : Location) : Prop :=
  files.node? location = some .bytes ∨ ∃ content, files.node? location = some (.text content)

theorem IsRegular.isSome (regular : files.IsRegular location) : (files.node? location).isSome := by
  rcases regular with bytes | ⟨content, held⟩
  · rw [bytes, Option.isSome_some]
  · rw [held, Option.isSome_some]

/-- A file system in which every place is listed once and under a name that a
file can have. -/
structure Sound (files : FileSystem) : Prop where
  once : (files.nodes.map Prod.fst).Nodup
  named : ∀ place ∈ files.nodes.map Prod.fst, ∀ name ∈ place.getLast?, IsFileName name

namespace Sound

theorem store (sound : files.Sound) (last : ∀ name ∈ place.getLast?, IsFileName name) (content : String) :
    (files.store place content).Sound := by
  rw [FileSystem.store]
  split
  · have places : (files.nodes.map fun entry => if entry.1 = place then (place, Node.text content) else entry).map Prod.fst =
        files.nodes.map Prod.fst := by
      rw [List.map_map]
      refine List.map_congr_left fun entry _ => ?_
      by_cases here : entry.1 = place <;> simp [here]
    exact ⟨by rw [places]; exact sound.once, by rw [places]; exact sound.named⟩
  · next free =>
      have fresh : place ∉ files.nodes.map Prod.fst := by
        intro taken
        obtain ⟨entry, listed, rfl⟩ := List.mem_map.mp taken
        exact free (List.lookup_isSome_iff.mpr ⟨entry, listed, beq_self_eq_true _⟩)
      have places : (files.nodes ++ [(place, Node.text content)]).map Prod.fst = files.nodes.map Prod.fst ++ [place] :=
        List.map_append
      refine ⟨?_, ?_⟩
      · rw [places]
        exact (List.perm_append_singleton place _).nodup_iff.mpr (List.nodup_cons.mpr ⟨fresh, sound.once⟩)
      · rw [places]
        exact List.forall_mem_append.mpr ⟨sound.named, List.forall_mem_singleton.mpr last⟩

end Sound

theorem short_of_enter (entered : files.enter parent name = .ok location) (nonempty : name ≠ "") (noDot : name ≠ ".")
    (noDots : name ≠ "..") : name.utf8ByteSize ≤ maxName := by
  rw [enter, directory_of_enter entered] at entered
  simp only [nonempty, noDot, noDots, or_self, if_false] at entered
  split at entered
  · contradiction
  · next short => exact Nat.not_lt.mp short

theorem checkedPieces_cases {all : List String} (checked : checkedPieces path = .ok all) :
    path ≠ "" ∧ path.utf8ByteSize < pathLimit ∧ all = pieces path := by
  rw [checkedPieces] at checked
  split at checked
  · contradiction
  · next given =>
      split at checked
      · contradiction
      · next short => exact ⟨given, Nat.lt_of_not_le short, (Except.ok.inj checked).symm⟩

/-- What is written stands under a name that a file can have. -/
theorem Sound.put (sound : files.Sound) (found : files.findPlace start path = .ok place) (content : String) :
    (files.put place content).Sound := by
  rw [FileSystem.put]
  split
  · exact sound
  · obtain ⟨before, name, offers⟩ := offers_of_findPlace found
    obtain ⟨parent, _, enters⟩ := offers.walk
    have spelled : name ∈ pieces path := by
      rw [← (checkedPieces_cases offers.pieces).2.2]
      exact List.mem_append_right _ (List.mem_singleton_self name)
    have named : IsFileName name := ⟨offers.nonempty, offers.noDot, offers.noDots, noSlash_of_mem_pieces spelled,
      short_of_enter enters offers.nonempty offers.noDot offers.noDots⟩
    refine sound.store (fun last ends => ?_) content
    rw [enter_name enters offers.nonempty offers.noDot offers.noDots, List.getLast?_concat, Option.mem_some] at ends
    exact ends ▸ named

end FileSystem

end Hack.CommandLine
