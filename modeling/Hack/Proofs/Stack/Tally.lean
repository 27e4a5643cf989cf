import Hack.Proofs.Assembly.Linking
import Hack.Proofs.Stack.Slots

namespace Hack.Stack

open Hack.Assembly Hack.Text

variable {line : List Char} {source text : String}

def opensApart (line : List Char) : Bool :=
  match line.dropWhile isBlank with
  | '/' :: rest => !(rest.takeWhile isBlank).isEmpty && (rest.dropWhile isBlank).head? == some '/'
  | _ => false

theorem dropWhile_of_opensApart (apart : OpensApart line) :
    ∃ gap rest, line.dropWhile isBlank = '/' :: (gap ++ '/' :: rest) ∧ gap ≠ [] ∧ ∀ c ∈ gap, isBlank c = true := by
  obtain ⟨blanks, gap, rest, rfl, nonempty, blank⟩ := apart
  obtain ⟨front, between⟩ := List.forall_mem_append.mp blank
  refine ⟨gap, rest, ?_, nonempty, between⟩
  rw [List.append_assoc, List.dropWhile_append_of_pos front]
  rfl

theorem opensApart_iff : opensApart line = true ↔ OpensApart line := by
  constructor
  · intro apart
    unfold opensApart at apart
    split at apart
    · next rest opens =>
        simp only [Bool.and_eq_true, Bool.not_eq_true', List.isEmpty_eq_false_iff, beq_iff_eq] at apart
        obtain ⟨nonempty, closes⟩ := apart
        obtain ⟨others, second⟩ := List.head?_eq_some_iff.mp closes
        refine ⟨line.takeWhile isBlank, rest.takeWhile isBlank, others, ?_, nonempty, ?_⟩
        · rw [← second, List.append_assoc, List.cons_append, List.takeWhile_append_dropWhile, ← opens,
            List.takeWhile_append_dropWhile]
        · intro c member
          rcases List.mem_append.mp member with inFront | between
          · exact isBlank_of_mem_takeWhile line c inFront
          · exact isBlank_of_mem_takeWhile rest c between
    · contradiction
  · intro apart
    obtain ⟨gap, rest, opens, nonempty, between⟩ := dropWhile_of_opensApart apart
    have width : (gap ++ '/' :: rest).takeWhile isBlank = gap := by
      rw [List.takeWhile_append_of_pos between, List.takeWhile_cons_of_neg (by decide), List.append_nil]
    have closes : (gap ++ '/' :: rest).dropWhile isBlank = '/' :: rest := by
      rw [List.dropWhile_append_of_pos between, List.dropWhile_cons_of_neg (by decide)]
    unfold opensApart
    rw [opens]
    simp only [width, closes]
    simpa using nonempty

instance (line : List Char) : Decidable (OpensApart line) :=
  decidable_of_iff (opensApart line = true) opensApart_iff

/-- What follows the first slash is blank, so the counter sees no comment. -/
theorem counts_of_opensApart (apart : OpensApart line) : counts line = true := by
  obtain ⟨gap, rest, opens, nonempty, between⟩ := dropWhile_of_opensApart apart
  have kept := dropWhile_eq_trim_append line
  have trailing : '/' ∉ ((line.dropWhile isBlank).reverse.takeWhile isBlank).reverse := by
    intro member
    have blank := isBlank_of_mem_takeWhile _ '/' (List.mem_reverse.mp member)
    contradiction
  rw [opens] at kept trailing
  unfold counts
  cases trimmed : trim line with
  | nil =>
      rw [trimmed, List.nil_append] at kept
      rw [← kept] at trailing
      exact absurd List.mem_cons_self trailing
  | cons first more =>
      rw [trimmed, List.cons_append, List.cons.injEq] at kept
      obtain ⟨rfl, others⟩ := kept
      cases gap with
      | nil => contradiction
      | cons second gap =>
          cases more with
          | nil =>
              rw [List.nil_append] at others
              rw [← others] at trailing
              exact absurd (by simp) trailing
          | cons third more =>
              obtain ⟨rfl, _⟩ := List.cons.inj others
              split
              · contradiction
              · next label => cases label
              · next comment =>
                  cases comment
                  exact absurd (between '/' List.mem_cons_self) (by decide)
              · rfl

theorem fills_of_opensApart (apart : OpensApart line) : fills line = false := by
  obtain ⟨blanks, gap, rest, same, _, blank⟩ := apart
  obtain ⟨front, between⟩ := List.forall_mem_append.mp blank
  have shown : line.filter (fun c => !isBlank c) = '/' :: '/' :: rest.filter fun c => !isBlank c := by
    rw [same, List.filter_append, List.filter_append, filter_of_blank front, List.nil_append,
      List.filter_cons_of_pos (by decide), filter_of_blank between, List.filter_cons_of_pos (by decide)]
    rfl
  rw [fills, cleanLine, shown, beforeComment_comment]
  rfl

theorem countP_counts (text : List (List Char)) :
    text.countP counts = text.countP fills + text.countP fun line => OpensApart line := by
  induction text with
  | nil => rfl
  | cons line rest ih =>
      rw [List.countP_cons, List.countP_cons, List.countP_cons, ih]
      by_cases apart : OpensApart line
      · rw [counts_of_opensApart apart, fills_of_opensApart apart, decide_eq_true apart]
        simp only [if_true, Bool.false_eq_true, if_false]
        omega
      · rw [counts_eq_fills apart, decide_eq_false apart]
        simp only [Bool.false_eq_true, if_false]
        omega

theorem slots_eq_countP (source : String) : slots source = (lines source.toList).countP fills := by
  rw [slots_eq, cleanedLines, List.countP_filter, List.countP_map]
  exact List.countP_congr fun line _ => by rw [fills, Function.comp_apply, Bool.and_comm]

/-- A text that assembles is counted as many instructions as its binary has
lines, and one more for every line that opens with slashes kept apart. -/
theorem countInstructions_of_assemble (assembled : assemble source = .ok text) :
    countInstructions source =
        (lines text.toList).length + ((lines source.toList).countP fun line => OpensApart line) ∧
      (countInstructions source = (lines text.toList).length ↔ ∀ line ∈ lines source.toList, ¬OpensApart line) := by
  obtain ⟨entries, listed, rfl⟩ := steps_of_map assembled
  have counted : countInstructions source =
      (lines (binaryText entries).toList).length + (lines source.toList).countP fun line => OpensApart line := by
    have whole : countInstructions source = (lines source.toList).countP counts := rfl
    rw [whole, countP_counts, ← slots_eq_countP, ← length_of_listing listed, lines_binaryText, List.length_map]
  refine ⟨counted, ?_⟩
  rw [counted, Nat.add_eq_left, List.countP_eq_zero]
  simp only [decide_eq_true_eq]

theorem countInstructions_of_assemble_mixed :
    assemble "( L )\r\n @ 7 // seven\n\n  /\t/ eight\n//nine\nD;J\tGT" = .ok "0000000000000111\n1110001100000001" ∧
      countInstructions "( L )\r\n @ 7 // seven\n\n  /\t/ eight\n//nine\nD;J\tGT" = 2 + 1 := by
  have assembled : assemble "( L )\r\n @ 7 // seven\n\n  /\t/ eight\n//nine\nD;J\tGT" =
      .ok "0000000000000111\n1110001100000001" := eq_ok_of_toOption (by decide +kernel)
  refine ⟨assembled, (countInstructions_of_assemble assembled).1.trans ?_⟩
  decide +kernel

/-- A comment whose slashes a space keeps apart is counted as an instruction. -/
theorem parted_comment_counted : assemble "@1\n/ / one" = .ok "0000000000000001" ∧
    (lines "0000000000000001".toList).length = 1 ∧ countInstructions "@1\n/ / one" = 2 :=
  ⟨eq_ok_of_toOption (by decide +kernel), by decide +kernel, by decide +kernel⟩

end Hack.Stack
