import Hack.Proofs.CommandLine.Directories

namespace Hack.CommandLine

open Hack.Text

variable {directory path : Path} {name other front old ending derived : String}

/-- The name that comes of a name when its extension is replaced. -/
inductive Derives (ending : String) : String → String → Prop where
  | kept {name : String} (undotted : '.' ∉ name.toList.tail) : Derives ending name (name ++ "." ++ ending)
  | replaced {front old : String} (nonempty : front ≠ "") (noDot : front ≠ ".") (last : '.' ∉ old.toList) :
      Derives ending (front ++ "." ++ old) (front ++ "." ++ ending)
  /-- Two dots would be left before the ending.  They name the parent directory,
  which takes none. -/
  | parent {old : String} (last : '.' ∉ old.toList) : Derives ending ("." ++ "." ++ old) ".."

theorem bne_dot_of_mem_reverse {text : List Char} (undotted : '.' ∉ text) : ∀ c ∈ text.reverse, (c != '.') = true := by
  intro c inside
  rw [bne_iff_ne]
  rintro rfl
  exact undotted (List.mem_reverse.mp inside)

theorem splitExtension_of_last_dot (nonempty : front ≠ "") (last : '.' ∉ old.toList) :
    splitExtension (front ++ "." ++ old) = (front, some old) := by
  have backwards : (front ++ "." ++ old).toList.reverse = old.toList.reverse ++ '.' :: front.toList.reverse := by simp
  have before := bne_dot_of_mem_reverse last
  have dropped : (front ++ "." ++ old).toList.reverse.dropWhile (· != '.') = '.' :: front.toList.reverse := by
    rw [backwards, List.dropWhile_append_of_pos before, List.dropWhile_cons_of_neg (by decide)]
  have taken : (front ++ "." ++ old).toList.reverse.takeWhile (· != '.') = old.toList.reverse := by
    rw [backwards, List.takeWhile_append_of_pos before, List.takeWhile_cons_of_neg (by decide), List.append_nil]
  have remains : front.toList.reverse ≠ [] := by simpa using nonempty
  obtain ⟨c, more, turned⟩ := List.exists_cons_of_ne_nil remains
  rw [turned] at dropped
  simp only [splitExtension, dropped, taken]
  rw [← turned, List.reverse_reverse, List.reverse_reverse, String.ofList_toList, String.ofList_toList]

theorem splitExtension_of_undotted (undotted : '.' ∉ name.toList.tail) : splitExtension name = (name, none) := by
  rw [splitExtension]
  cases spelled : name.toList with
  | nil => rfl
  | cons c rest =>
      rw [spelled, List.tail_cons] at undotted
      have before := bne_dot_of_mem_reverse undotted
      rw [List.reverse_cons, List.dropWhile_append_of_pos before]
      by_cases dot : c = '.'
      · rw [dot]
        rfl
      · rw [List.dropWhile_cons_of_pos (by simpa using dot)]
        rfl

theorem Derives.eq (derives : Derives ending name derived) (noDot : name ≠ ".") :
    derived = replaceExtension name ending := by
  cases derives with
  | kept undotted => rw [replaceExtension, stem, splitExtension_of_undotted undotted, if_neg noDot]
  | replaced nonempty more last => rw [replaceExtension, stem, splitExtension_of_last_dot nonempty last, if_neg more]
  | parent last =>
      rw [replaceExtension, stem, splitExtension_of_last_dot (by decide) last]
      rfl

theorem Derives.noSlash (derives : Derives ending name derived) (noSlash : '/' ∉ name.toList)
    (plain : '/' ∉ ending.toList) : '/' ∉ derived.toList := by
  cases derives with
  | kept _ => simp [noSlash, plain]
  | replaced _ _ _ =>
      simp only [String.toList_append, List.mem_append, not_or] at noSlash ⊢
      exact ⟨noSlash.1, plain⟩
  | parent _ => decide

end Hack.CommandLine
