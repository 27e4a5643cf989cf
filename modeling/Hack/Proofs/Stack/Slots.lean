import Hack.Stack.Translation
import Hack.Proofs.Assembly.Rendering

namespace Hack.Stack

/-! Counted lines and instruction slots.

The counter of a translation trims a line and looks at how it begins; the
assembler removes all blanks from it before it looks.  The two differ on one
kind of line only, which begins with two slashes that blanks keep apart.
-/

open Hack.Assembly Hack.Text

/-- Blanks alone keep apart the two slashes that the line begins with. -/
def OpensApart (line : List Char) : Prop :=
  ∃ blanks gap rest, line = blanks ++ '/' :: gap ++ '/' :: rest ∧ gap ≠ [] ∧ ∀ c ∈ blanks ++ gap, isBlank c = true

/-- The counter takes the line for an instruction. -/
def counts (line : List Char) : Bool :=
  match trim line with
  | [] => false
  | '(' :: _ => false
  | '/' :: '/' :: _ => false
  | _ => true

/-- The line fills an instruction slot. -/
def fills (line : List Char) : Bool :=
  !(cleanLine line).isEmpty && !opensLabel (cleanLine line)

variable {c : Char} {line text front rest suffix : List Char}

theorem exists_around_trim (text : List Char) :
    ∃ before after, text = before ++ trim text ++ after ∧ ∀ c ∈ before ++ after, isBlank c = true := by
  refine ⟨text.takeWhile isBlank, ((text.dropWhile isBlank).reverse.takeWhile isBlank).reverse, ?_, fun c member => ?_⟩
  · rw [List.append_assoc, ← dropWhile_eq_trim_append, List.takeWhile_append_dropWhile]
  · rcases List.mem_append.mp member with inFront | atEnd
    · exact isBlank_of_mem_takeWhile _ c inFront
    · exact isBlank_of_mem_takeWhile _ c (List.mem_reverse.mp atEnd)

theorem visible_of_trim (trimmed : trim text = c :: rest) : isBlank c = false := by
  have opens : (text.dropWhile isBlank).head? = some c := by
    rw [dropWhile_eq_trim_append, trimmed]
    rfl
  have head := List.head?_dropWhile_not isBlank text
  rw [opens] at head
  simpa using head

theorem filter_of_blank (blank : ∀ c ∈ text, isBlank c = true) : text.filter (fun c => !isBlank c) = [] :=
  List.filter_eq_nil_iff.mpr fun c member => by simp [blank c member]

theorem filter_trim (text : List Char) :
    (trim text).filter (fun c => !isBlank c) = text.filter fun c => !isBlank c := by
  obtain ⟨before, after, same, blank⟩ := exists_around_trim text
  conv_rhs => rw [same]
  rw [List.filter_append, List.filter_append, filter_of_blank fun c member => blank c (List.mem_append_left _ member),
    filter_of_blank fun c member => blank c (List.mem_append_right _ member), List.nil_append, List.append_nil]

/-- Two slashes that a line shows first stand together in it. -/
theorem slash_of_shown {more others : List Char} (together : ¬OpensApart line) (trimmed : trim line = '/' :: more)
    (shown : more.filter (fun c => !isBlank c) = '/' :: others) : ∃ rest, more = '/' :: rest := by
  obtain ⟨gap, rest, rfl, blank, _⟩ := List.filter_eq_cons_iff.mp shown
  obtain ⟨before, after, same, around⟩ := exists_around_trim line
  cases gap with
  | nil => exact ⟨rest, rfl⟩
  | cons first gap =>
      refine absurd ⟨before, first :: gap, rest ++ after, ?_, List.cons_ne_nil _ _, fun c member => ?_⟩ together
      · rw [same, trimmed]
        simp
      · rcases List.mem_append.mp member with inFront | inGap
        · exact around c (List.mem_append_left _ inFront)
        · simpa using blank c inGap

theorem counts_eq_fills (together : ¬OpensApart line) : counts line = fills line := by
  have kept := filter_trim line
  unfold counts fills cleanLine
  rw [← kept]
  cases trimmed : trim line with
  | nil => rfl
  | cons c more =>
      rw [List.filter_cons_of_pos (by simp [visible_of_trim trimmed])]
      by_cases comment : ∃ others, c = '/' ∧ more.filter (fun c => !isBlank c) = '/' :: others
      · obtain ⟨others, rfl, shown⟩ := comment
        obtain ⟨rest, rfl⟩ := slash_of_shown together trimmed shown
        rw [shown, beforeComment_comment]
        rfl
      · have plain : ∀ others, c = '/' → more.filter (fun c => !isBlank c) = '/' :: others → False :=
          fun others first second => comment ⟨others, first, second⟩
        rw [beforeComment_cons plain]
        split
        · contradiction
        · next same =>
            cases same
            rfl
        · next rest same =>
            cases same
            exact absurd ⟨_, rfl, List.filter_cons_of_pos (by decide)⟩ comment
        · next noLabel _ =>
            have label : opensLabel (c :: beforeComment (more.filter fun c => !isBlank c)) = false := by
              unfold opensLabel
              split
              · next same =>
                  cases same
                  exact absurd rfl (noLabel more)
              · rfl
            rw [label]
            rfl

theorem countInstructions_eq_slots {code : String} (together : ∀ line ∈ lines code.toList, ¬OpensApart line) :
    countInstructions code = slots code := by
  have counted : countInstructions code = (lines code.toList).countP counts := rfl
  rw [counted, slots_eq, cleanedLines, List.countP_filter, List.countP_map]
  refine List.countP_congr fun line member => ?_
  rw [counts_eq_fills (together line member), fills, Function.comp_apply, Bool.and_comm]

/-- No line of the name but the first opens apart: something is written before
the first wherever the name is used. -/
def Countable (name : List Char) : Prop :=
  ∀ line ∈ (lines name).tail, ¬OpensApart line

theorem not_opensApart_cons (plain : isPlain c = true) (rest : List Char) : ¬OpensApart (c :: rest) := by
  rintro ⟨blanks, gap, others, same, _, blank⟩
  cases blanks with
  | nil =>
      obtain ⟨rfl, _⟩ := List.cons.inj same
      contradiction
  | cons first blanks =>
      obtain ⟨rfl, _⟩ := List.cons.inj same
      simp [isPlain, blank c List.mem_cons_self] at plain

/-- Slashes that are kept apart by blanks alone stand in front of everything else. -/
theorem opensApart_of_append (plain : isPlain c = true) (apart : OpensApart (front ++ c :: rest)) : OpensApart front := by
  obtain ⟨blanks, gap, others, same, nonempty, blank⟩ := apart
  have absent : c ∉ blanks ++ '/' :: gap ++ ['/'] := by
    intro member
    simp only [List.append_assoc, List.mem_append, List.cons_append, List.mem_cons, List.not_mem_nil, or_false] at member
    simp only [List.mem_append] at blank
    rcases member with inBlanks | rfl | inGap | rfl
    · simp [isPlain, blank c (.inl inBlanks)] at plain
    · contradiction
    · simp [isPlain, blank c (.inr inGap)] at plain
    · contradiction
  have cut : front ++ c :: rest = (blanks ++ '/' :: gap ++ ['/']) ++ others := by simpa using same
  rcases List.append_eq_append_iff.mp cut with ⟨more, opening, tail⟩ | ⟨more, rfl, _⟩
  · cases more with
    | nil => exact ⟨blanks, gap, [], by simpa using opening.symm, nonempty, blank⟩
    | cons first more =>
        obtain ⟨rfl, _⟩ := List.cons.inj tail
        exact absurd (by simp [opening]) absent
  · exact ⟨blanks, gap, more, by simp, nonempty, blank⟩

theorem lines_cons (stays : c ≠ '\n') (rest : List Char) :
    lines (c :: rest) = (c :: (lines rest).headD []) :: (lines rest).tail := by
  unfold lines
  rw [stretches_cons]
  unfold extend
  rw [if_neg (by simpa using stays)]
  cases stretches (· == '\n') rest <;> rfl

theorem lines_append_unended (clear : '\n' ∉ suffix) (nonempty : suffix ≠ []) (text : List Char) :
    lines (text ++ suffix) = lines text ++ [suffix] ∨
      ∃ front last, lines text = front ++ [last] ∧ lines (text ++ suffix) = front ++ [last ++ suffix] := by
  induction text with
  | nil => exact .inl (lines_unended clear nonempty)
  | cons c rest ih =>
      by_cases ended : c = '\n'
      · subst ended
        have fresh : ∀ others, lines ('\n' :: others) = [] :: lines others := fun _ => rfl
        rw [List.cons_append, fresh, fresh]
        rcases ih with same | ⟨front, last, before, after⟩
        · exact .inl (by rw [same]; rfl)
        · exact .inr ⟨[] :: front, last, by rw [before]; rfl, by rw [after]; rfl⟩
      · rw [List.cons_append, lines_cons ended, lines_cons ended]
        rcases ih with same | ⟨front, last, before, after⟩
        · rw [same]
          cases lines rest with
          | nil => exact .inr ⟨[], [c], rfl, rfl⟩
          | cons line others => exact .inl rfl
        · rw [before, after]
          cases front with
          | nil => exact .inr ⟨[], c :: last, rfl, rfl⟩
          | cons line others => exact .inr ⟨(c :: line) :: others, last, rfl, rfl⟩

namespace Countable

theorem of_clear (clear : '\n' ∉ text) : Countable text := by
  intro line member
  cases text with
  | nil => simp [lines, stretches_nil] at member
  | cons c rest => simp [lines_unended clear] at member

theorem of_noSlash (noSlash : '/' ∉ text) : Countable text := by
  intro line member apart
  obtain ⟨blanks, gap, rest, same, _⟩ := apart
  apply noSlash
  apply mem_of_mem_stretches (List.mem_of_mem_tail member)
  simp [same]

/-- Nothing is lost by what is written behind a name. -/
theorem append (countable : Countable text) (plain : isPlain c = true) (clear : '\n' ∉ c :: rest) :
    Countable (text ++ c :: rest) := by
  intro line member
  rcases lines_append_unended clear (List.cons_ne_nil c rest) text with same | ⟨front, last, before, after⟩
  · rw [same] at member
    cases found : lines text with
    | nil => simp [found] at member
    | cons first others =>
        rw [found] at member
        rcases List.mem_append.mp member with inText | behind
        · exact countable line (by rw [found]; exact inText)
        · rw [List.mem_singleton.mp behind]
          exact not_opensApart_cons plain rest
  · rw [after] at member
    cases front with
    | nil => simp at member
    | cons first others =>
        have inside : ∀ line ∈ others ++ [last], ¬OpensApart line := by
          intro line member
          exact countable line (by rw [before]; exact member)
        rcases List.mem_append.mp member with inText | behind
        · exact inside line (List.mem_append_left _ inText)
        · rw [List.mem_singleton.mp behind]
          exact fun apart => inside last (by simp) (opensApart_of_append plain apart)

/-- The first line begins with what is written before a name. -/
theorem cons (countable : Countable rest) (plain : isPlain c = true) : ∀ line ∈ lines (c :: rest), ¬OpensApart line := by
  have stays : c ≠ '\n' := by
    rintro rfl
    contradiction
  rw [lines_cons stays]
  exact List.forall_mem_cons.mpr ⟨not_opensApart_cons plain _, countable⟩

end Countable

variable {statement : Statement} {statements : List Statement}

/-- Statements open with a character that no cleaning removes, and labels are
told from instructions by it. -/
theorem exists_opening (statement : Statement) :
    ∃ first rest, statement.text.toList = first :: rest ∧ isPlain first = true ∧
      (first == '(') = statement.instruction?.isNone := by
  cases statement with
  | label name => exact ⟨'(', name.toList ++ [')'], by simp [Statement.text], rfl, rfl⟩
  | instruction body =>
      cases body with
      | address operand =>
          exact ⟨'@', operand.text.toList, by simp [Statement.text, Instruction.text], rfl, rfl⟩
      | compute dest comp jump =>
          obtain ⟨first, rest, text, member⟩ := head?_compute_text dest comp jump
          have openings : (computeOpenings.all fun first => isPlain first && first != '(') = true := by decide
          have allowed := List.all_eq_true.mp openings first member
          obtain ⟨plain, noLabel⟩ := Bool.and_eq_true_iff.mp allowed
          exact ⟨first, rest, text, plain, by simpa [Statement.instruction?] using noLabel⟩

theorem together_text (named : statement.Named fun name => Countable name.toList) :
    ∀ line ∈ lines statement.text.toList, ¬OpensApart line := by
  have unnamed : (statement.Named fun name => '\n' ∉ name.toList) → ∀ line ∈ lines statement.text.toList, ¬OpensApart line := by
    intro clear
    have oneLine := lineFeed_not_mem_text clear
    obtain ⟨first, rest, text, plain, _⟩ := exists_opening statement
    rw [text] at oneLine ⊢
    exact (Countable.of_clear fun member => oneLine (List.mem_cons_of_mem first member)).cons plain
  cases statement with
  | label name =>
      have shown : (Statement.label name).text.toList = '(' :: (name.toList ++ [')']) := by simp [Statement.text]
      rw [shown]
      exact (named.append (by decide) (by decide)).cons (by decide)
  | instruction body =>
      cases body with
      | compute dest comp jump => exact unnamed trivial
      | address operand =>
          cases operand with
          | literal value => exact unnamed trivial
          | symbol name =>
              have shown : (Statement.instruction (.address (.symbol name))).text.toList = '@' :: name.toList := by
                simp [Statement.text, Instruction.text, Operand.text]
              rw [shown]
              exact Countable.cons named (by decide)

theorem together_render (named : ∀ statement ∈ statements, statement.Named fun name => Countable name.toList) :
    ∀ line ∈ lines (Statement.render statements).toList, ¬OpensApart line := by
  induction statements with
  | nil => simp [lines, stretches_nil]
  | cons statement rest ih =>
      obtain ⟨one, more⟩ := List.forall_mem_cons.mp named
      have empty : ¬OpensApart [] := by
        rintro ⟨blanks, gap, others, same, _⟩
        simp at same
      rw [toList_render_cons, lines_append_lineFeed, List.forall_mem_append]
      refine ⟨?_, ih more⟩
      have closed : lines (statement.text.toList ++ ['\n']) = lines statement.text.toList ∨
          lines (statement.text.toList ++ ['\n']) = lines statement.text.toList ++ [[]] :=
        stretches_concat_closing rfl _
      rcases closed with same | same
      · rw [same]
        exact together_text one
      · rw [same, List.forall_mem_append]
        exact ⟨together_text one, by simpa using empty⟩

end Hack.Stack
