import Hack.CommandLine.World
import Hack.Proofs.Sequence

namespace Hack.CommandLine

/-! Files under paths.

A path is walked through directories, and writing changes no directory.  So a
text that is written at one path changes nothing about where the other paths
lead, and it is read back at every path that leads to its place.
-/

variable {files other : FileSystem} {start location place parent : Location} {path : Path}
variable {content name : String}

namespace FileSystem

theorem node?_of_ne_nil (inside : location ≠ []) : files.node? location = files.nodes.lookup location := by
  rw [node?, if_neg (by simpa using inside)]

theorem lookup_overwrite (nodes : List (Location × Node)) (place location : Location) (node : Node) :
    (nodes.map fun entry => if entry.1 = place then (place, node) else entry).lookup location =
      if location = place then (nodes.lookup location).map fun _ => node else nodes.lookup location := by
  induction nodes with
  | nil => simp
  | cons entry rest ih =>
      obtain ⟨first, held⟩ := entry
      rw [List.map_cons]
      by_cases here : first = place
      · subst here
        by_cases same : location = first
        · simp [same]
        · simp [List.lookup_cons, same, ih, beq_false_of_ne same]
      · by_cases same : location = first
        · subst same
          simp [here]
        · simp [List.lookup_cons, here, ih, beq_false_of_ne same]

theorem node?_store (inside : place ≠ []) (location : Location) :
    (files.store place content).node? location =
      if location = place then some (.text content) else files.node? location := by
  by_cases root : location = []
  · subst root
    rw [if_neg (Ne.symm inside)]
    rfl
  · rw [node?_of_ne_nil root, node?_of_ne_nil root, store]
    split
    · next taken =>
        rw [lookup_overwrite]
        split
        · next same =>
            obtain ⟨node, found⟩ := Option.isSome_iff_exists.mp taken
            rw [same, found]
            rfl
        · rfl
    · next free =>
        rw [List.lookup_append]
        split
        · next same =>
            have absent := Option.not_isSome_iff_eq_none.mp free
            rw [same, absent]
            simp
        · next different => simp [List.lookup_cons, beq_false_of_ne different]

theorem directory_of_enter (entered : files.enter parent name = .ok location) :
    files.node? parent = some .directory := by
  unfold enter at entered
  split at entered
  · contradiction
  · next found => exact found
  · contradiction

theorem enter_eq (directory : files.node? parent = some .directory) (otherDirectory : other.node? parent = some .directory) :
    files.enter parent name = other.enter parent name := by
  rw [enter, enter, directory, otherDirectory]

theorem enter_dot (directory : files.node? parent = some .directory) : files.enter parent "." = .ok parent := by
  rw [enter, directory]
  rfl

theorem enter_name (entered : files.enter parent name = .ok place) (nonempty : name ≠ "") (noDot : name ≠ ".")
    (noDots : name ≠ "..") : place = parent ++ [name] := by
  rw [enter, directory_of_enter entered] at entered
  simp only [nonempty, noDot, noDots, or_self, if_false] at entered
  split at entered
  · contradiction
  · cases entered
    rfl

/-- Two file systems with the same directories and the same sinks. -/
structure Alike (files other : FileSystem) : Prop where
  directory : ∀ location, files.node? location = some .directory ↔ other.node? location = some .directory
  sink : ∀ location, files.node? location = some .sink ↔ other.node? location = some .sink

theorem Alike.symm (alike : files.Alike other) : other.Alike files :=
  ⟨fun location => (alike.directory location).symm, fun location => (alike.sink location).symm⟩

/-- A place where a file is or can be. -/
structure IsFree (files : FileSystem) (place : Location) : Prop where
  inside : place ≠ []
  noDirectory : files.node? place ≠ some .directory
  noSink : files.node? place ≠ some .sink

theorem alike_store (free : files.IsFree place) : files.Alike (files.store place content) := by
  constructor
  · intro location
    rw [node?_store free.inside]
    split
    · next same => simp [same, free.noDirectory]
    · rfl
  · intro location
    rw [node?_store free.inside]
    split
    · next same => simp [same, free.noSink]
    · rfl

theorem Alike.enter (alike : files.Alike other) (entered : files.enter parent name = .ok location) :
    other.enter parent name = .ok location := by
  have directory := directory_of_enter entered
  rw [← enter_eq directory ((alike.directory parent).mp directory), entered]

theorem Alike.walk (alike : files.Alike other) {pieces : List String}
    (walked : pieces.foldlM files.enter start = .ok location) : pieces.foldlM other.enter start = .ok location := by
  induction pieces generalizing start with
  | nil => exact walked
  | cons piece rest ih =>
      rw [List.foldlM_cons] at walked ⊢
      obtain ⟨next, entered, more⟩ := steps_of_bind walked
      rw [alike.enter entered]
      exact ih more

/-- Where a path begins. -/
def root (start : Location) (path : Path) : Location :=
  if path.startsWith "/" then [] else start

/-- A path that offers a place for a file ends in a name, and what stands before
the name leads to a directory. -/
structure Offers (files : FileSystem) (start : Location) (path : Path) (before : List String) (name : String)
    (place : Location) : Prop where
  pieces : checkedPieces path = .ok (before ++ [name])
  nonempty : name ≠ ""
  noDot : name ≠ "."
  noDots : name ≠ ".."
  walk : ∃ parent, before.foldlM files.enter (root start path) = .ok parent ∧ files.enter parent name = .ok place

theorem dropWhile_reverse_concat {before : List String} (nonempty : name ≠ "") :
    (before ++ [name]).reverse.dropWhile (· == "") = name :: before.reverse := by
  simp [nonempty]

theorem offers_of_findPlace (found : files.findPlace start path = .ok place) :
    ∃ before name, files.Offers start path before name place := by
  obtain ⟨all, pieces, found⟩ := steps_of_bind found
  rcases List.eq_nil_or_concat all with rfl | ⟨before, last, rfl⟩
  · contradiction
  · rw [List.concat_eq_append] at pieces found
    by_cases trailing : last = ""
    · subst trailing
      split at found
      · contradiction
      · obtain ⟨_, _, found⟩ := steps_of_bind found
        obtain ⟨_, _, found⟩ := steps_of_bind found
        simp at found
    · rw [dropWhile_reverse_concat trailing] at found
      simp only [List.reverse_reverse, List.getLast?_concat, Option.some.injEq, trailing, or_false] at found
      obtain ⟨parent, walk, found⟩ := steps_of_bind found
      obtain ⟨directory, stays, found⟩ := steps_of_bind found
      rw [enter_dot (directory_of_enter stays)] at stays
      cases stays
      split at found
      · contradiction
      · next ordinary =>
          rw [not_or] at ordinary
          exact ⟨before, last, pieces, trailing, ordinary.1, ordinary.2, parent, walk, found⟩

namespace Offers

variable {before : List String}

theorem findPlace_eq (offers : files.Offers start path before name place) : files.findPlace start path = .ok place := by
  obtain ⟨parent, walk, enter⟩ := offers.walk
  have ordinary : ¬ (name = "." ∨ name = ".." ∨ name = "") := by
    simp [offers.noDot, offers.noDots, offers.nonempty]
  rw [findPlace, offers.pieces, ok_bind, dropWhile_reverse_concat offers.nonempty, ← root]
  simp only [List.reverse_reverse, List.getLast?_concat, Option.some.injEq]
  rw [walk, ok_bind, enter_dot (directory_of_enter enter), ok_bind, if_neg ordinary, enter]

theorem alike (offers : files.Offers start path before name place) (same : files.Alike other) :
    other.Offers start path before name place := by
  obtain ⟨parent, walk, enter⟩ := offers.walk
  exact { offers with walk := ⟨parent, same.walk walk, same.enter enter⟩ }

theorem find_eq (offers : files.Offers start path before name place) {node : Node}
    (held : files.node? place = some node) : files.find start path = .ok (place, node) := by
  obtain ⟨parent, walk, enter⟩ := offers.walk
  have whole : (before ++ [name]).foldlM files.enter (root start path) = .ok place := by
    rw [List.foldlM_append, walk, ok_bind, List.foldlM_cons, enter]
    rfl
  rw [find, offers.pieces, ok_bind, ← root, whole, ok_bind, held]

theorem inside (offers : files.Offers start path before name place) : place ≠ [] := by
  obtain ⟨parent, _, enter⟩ := offers.walk
  rw [enter_name enter offers.nonempty offers.noDot offers.noDots]
  simp

end Offers

theorem read_store (found : files.findPlace start path = .ok place) (free : files.IsFree place) :
    (files.store place content).read start path = .ok content := by
  obtain ⟨before, name, offers⟩ := offers_of_findPlace found
  have held : (files.store place content).node? place = some (.text content) := by
    rw [node?_store free.inside, if_pos rfl]
  rw [read, (offers.alike (alike_store free)).find_eq held]
  rfl

/-- The files after a text has been written at a place.  A sink stays empty. -/
def put (files : FileSystem) (place : Location) (content : String) : FileSystem :=
  if files.node? place = some .sink then files else files.store place content

theorem write_eq (found : files.findPlace start path = .ok place) (noDirectory : files.node? place ≠ some .directory)
    (content : String) : files.write start path content = .ok (files.put place content) := by
  rw [write, found, ok_bind, put]
  split
  · next directory => exact absurd directory noDirectory
  · next sink => rw [if_pos sink]
  · next noSink => rw [if_neg noSink]

theorem write_cases (written : files.write start path content = .ok other) :
    ∃ place, files.findPlace start path = .ok place ∧ files.node? place ≠ some .directory ∧
      other = files.put place content := by
  obtain ⟨place, found, rest⟩ := steps_of_bind written
  have noDirectory : files.node? place ≠ some .directory := by
    intro directory
    rw [directory] at rest
    contradiction
  refine ⟨place, found, noDirectory, ?_⟩
  rw [write_eq found noDirectory] at written
  exact (Except.ok.inj written).symm

theorem Alike.findPlace_eq (alike : files.Alike other) (found : files.findPlace start path = .ok place) :
    other.findPlace start path = .ok place := by
  obtain ⟨before, name, offers⟩ := offers_of_findPlace found
  exact (offers.alike alike).findPlace_eq

theorem Alike.noDirectory (alike : files.Alike other) (noDirectory : files.node? place ≠ some .directory) :
    other.node? place ≠ some .directory :=
  fun directory => noDirectory ((alike.directory place).mpr directory)

theorem read_put (found : files.findPlace start path = .ok place) (noDirectory : files.node? place ≠ some .directory) :
    (files.put place content).read start path = .ok (if files.node? place = some .sink then "" else content) := by
  obtain ⟨before, name, offers⟩ := offers_of_findPlace found
  unfold put
  split
  · next sink =>
      rw [read, offers.find_eq sink]
      rfl
  · next noSink => exact read_store found ⟨offers.inside, noDirectory, noSink⟩

/-- The same text is read at a path in both file systems, and the nodes are the
same everywhere but at one place. -/
structure SameBut (place start : Location) (path : Path) (files other : FileSystem) : Prop where
  content : ∃ held, files.read start path = .ok held ∧ other.read start path = .ok held
  elsewhere : ∀ location, location ≠ place → files.node? location = other.node? location

theorem sameBut_put {target : Location} (free : files.IsFree place) (earlier : String)
    (found : files.findPlace start path = .ok target) (noDirectory : files.node? target ≠ some .directory) :
    SameBut place start path ((files.store place earlier).put target content) (files.put target content) := by
  have alike : files.Alike (files.store place earlier) := alike_store free
  have foundLater := alike.findPlace_eq found
  obtain ⟨before, name, offers⟩ := offers_of_findPlace found
  refine ⟨⟨_, read_put foundLater (alike.noDirectory noDirectory), ?_⟩, fun location elsewhere => ?_⟩
  · simp only [← alike.sink target]
    exact read_put found noDirectory
  · simp only [put, ← alike.sink target]
    split
    · rw [node?_store free.inside, if_neg elsewhere]
    · rw [node?_store offers.inside, node?_store offers.inside, node?_store free.inside, if_neg elsewhere]

/-- A file that was written before makes no difference to whether a text can be
written, nor to what is there then. -/
theorem write_store_cases (free : files.IsFree place) (earlier : String) (start : Location) (path : Path)
    (content : String) :
    (((files.store place earlier).write start path content).toOption = none ∧
        (files.write start path content).toOption = none) ∨
      ∃ later after, ((files.store place earlier).write start path content).toOption = some later ∧
        (files.write start path content).toOption = some after ∧ SameBut place start path later after := by
  have alike : files.Alike (files.store place earlier) := alike_store free
  cases written : files.write start path content with
  | ok after =>
      obtain ⟨target, found, noDirectory, rfl⟩ := write_cases written
      rw [write_eq (alike.findPlace_eq found) (alike.noDirectory noDirectory)]
      exact .inr ⟨_, _, rfl, rfl, sameBut_put free earlier found noDirectory⟩
  | error failure =>
      cases writtenLater : (files.store place earlier).write start path content with
      | error _ => exact .inl ⟨rfl, rfl⟩
      | ok later =>
          -- The files are alike both ways, so what can be written later can be written now.
          obtain ⟨target, found, noDirectory, _⟩ := write_cases writtenLater
          rw [write_eq (alike.symm.findPlace_eq found) (alike.symm.noDirectory noDirectory)] at written
          contradiction

end FileSystem

end Hack.CommandLine
