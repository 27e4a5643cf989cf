import Hack.Proofs.Assembly.Rendering

namespace Hack.Assembly

open Hack.Text

variable {c mark : Char} {text front rest : List Char} {statement : Statement}
variable {first second statements used declared : List Statement}

/-- A character behind a text is lost exactly when there is a comment before it. -/
theorem beforeComment_concat (noSlash : c ≠ '/') (text : List Char) :
    beforeComment (text ++ [c]) = beforeComment text ∨ beforeComment (text ++ [c]) = beforeComment text ++ [c] := by
  induction text with
  | nil => exact .inr (beforeComment_cons fun more slash _ => noSlash slash)
  | cons first rest ih =>
      by_cases opens : first = '/' ∧ ∃ more, rest = '/' :: more
      · obtain ⟨rfl, more, rfl⟩ := opens
        exact .inl (beforeComment_comment.trans beforeComment_comment.symm)
      · have alone : ∀ more, first = '/' → rest = '/' :: more → False :=
          fun more slash next => opens ⟨slash, more, next⟩
        have still : ∀ more, first = '/' → rest ++ [c] = '/' :: more → False := by
          intro more slash next
          cases rest with
          | nil => exact noSlash (List.cons.inj next).1
          | cons other others => exact alone others slash (by rw [(List.cons.inj next).1])
        rw [List.cons_append, beforeComment_cons alone, beforeComment_cons still]
        rcases ih with lost | kept
        · exact .inl (by rw [lost])
        · exact .inr (by rw [kept, List.cons_append])

/-- A text without comment goes on when something without slashes is put behind it. -/
theorem beforeComment_append (whole : beforeComment text = text) (noSlash : '/' ∉ rest) :
    beforeComment (text ++ rest) = text ++ rest := by
  induction text with
  | nil =>
      clear whole
      induction rest with
      | nil => rfl
      | cons c rest ih =>
          obtain ⟨plain, others⟩ : '/' ≠ c ∧ '/' ∉ rest := by simpa using noSlash
          rw [List.nil_append, beforeComment_cons fun _ slash _ => plain slash.symm, ← List.nil_append rest, ih others]
  | cons first more ih =>
      have alone : ∀ others, first = '/' → more = '/' :: others → False := by
        rintro others rfl rfl
        rw [beforeComment_comment] at whole
        contradiction
      have still : ∀ others, first = '/' → more ++ rest = '/' :: others → False := by
        intro others slash next
        cases more with
        | nil =>
            rw [List.nil_append] at next
            exact noSlash (next ▸ List.mem_cons_self)
        | cons other more => exact alone more slash (by rw [(List.cons.inj next).1])
      rw [beforeComment_cons alone] at whole
      rw [List.cons_append, beforeComment_cons still, ih (List.cons.inj whole).2]

theorem cleanLine_concat (plain : isPlain c = true) (text : List Char) :
    cleanLine (text ++ [c]) = cleanLine text ∨ cleanLine (text ++ [c]) = cleanLine text ++ [c] := by
  simp only [isPlain, Bool.and_eq_true, bne_iff_ne] at plain
  have kept : [c].filter (fun c => !isBlank c) = [c] := by rw [List.filter_cons, if_pos plain.1, List.filter_nil]
  rw [cleanLine, cleanLine, List.filter_append, kept]
  exact beforeComment_concat plain.2 _

theorem label_of_readStatement (read : readStatement ('(' :: text) = .ok statement) :
    ∃ name, isSymbol name = true ∧ text = name ++ [')'] ∧ statement = .label (String.ofList name) := by
  generalize line : '(' :: text = opened at read
  cases written_of_readStatement read with
  | label name legal => exact ⟨name, legal, (List.cons.inj line).2, rfl⟩
  | literal digits value numeral => exact absurd (List.cons.inj line).1 (by decide)
  | symbol name legal => exact absurd (List.cons.inj line).1 (by decide)
  | compute dest comp jump =>
      obtain ⟨c, more, text, member⟩ := head?_compute_text dest comp jump
      rw [text] at line
      rw [← (List.cons.inj line).1] at member
      exact absurd member (by decide)

theorem symbol_of_readStatement (dot : '.' ∈ text) (read : readStatement ('@' :: text) = .ok statement) :
    statement = .instruction (.address (.symbol (String.ofList text))) := by
  generalize line : '@' :: text = opened at read
  cases written_of_readStatement read with
  | label name legal => exact absurd (List.cons.inj line).1 (by decide)
  | literal digits value numeral =>
      rw [(List.cons.inj line).2] at dot
      have digit := isDigit_of_natural? numeral _ dot
      exact absurd digit (by decide)
  | symbol name legal => rw [(List.cons.inj line).2]
  | compute dest comp jump =>
      obtain ⟨c, more, text, member⟩ := head?_compute_text dest comp jump
      rw [text] at line
      rw [← (List.cons.inj line).1] at member
      exact absurd member (by decide)

theorem readStatement_closed_ne (name : List Char) (statement : Statement) :
    readStatement ('@' :: (name ++ [')'])) ≠ .ok statement := by
  intro read
  generalize line : '@' :: (name ++ [')']) = opened at read
  have closed : ')' ∈ name ++ [')'] := by simp
  cases written_of_readStatement read with
  | label name legal => exact absurd (List.cons.inj line).1 (by decide)
  | literal digits value numeral =>
      rw [(List.cons.inj line).2] at closed
      have digit := isDigit_of_natural? numeral _ closed
      exact absurd digit (by decide)
  | symbol name legal =>
      rw [(List.cons.inj line).2] at closed
      have inSymbol := symbolChar_of_isSymbol legal _ closed
      exact absurd inSymbol (by decide)
  | compute dest comp jump =>
      obtain ⟨c, more, text, member⟩ := head?_compute_text dest comp jump
      rw [text] at line
      rw [← (List.cons.inj line).1] at member
      exact absurd member (by decide)

/-- The first line of a text, which is there when it opens with a mark. -/
theorem Reads.opening (plain : isPlain mark = true) (clear : '\n' ∉ front)
    (reads : Reads (mark :: (front ++ '\n' :: rest)) statements) :
    ∃ statement others, statements = statement :: others ∧
      readStatement (mark :: cleanLine front) = .ok statement ∧ Reads rest others := by
  have clear' : '\n' ∉ mark :: front := by
    rintro (_ | ⟨_, later⟩)
    · exact absurd plain (by decide)
    · exact clear later
  have text : mark :: (front ++ '\n' :: rest) = ((mark :: front) ++ ['\n']) ++ rest := by simp
  rw [text] at reads
  obtain ⟨first, others, one, more, rfl⟩ := reads.split (.inr ⟨mark :: front, rfl⟩)
  rw [Reads, cleanedLines_line clear', cleanLine_cons plain, if_neg (List.cons_ne_nil _ _)] at one
  obtain ⟨statement, none, rfl, read, empty⟩ := List.map_eq_cons_iff.mp one.symm
  rw [List.map_eq_nil_iff.mp empty]
  exact ⟨statement, others, rfl, read.symm, more⟩

theorem Reads.split_render (reads : Reads (Statement.render (first ++ second)).toList statements) :
    ∃ front back, Reads (Statement.render first).toList front ∧ Reads (Statement.render second).toList back ∧
      statements = front ++ back := by
  rw [Statement.render_append, String.toList_append] at reads
  exact reads.split (endsLine_render first)

/-- A name that is used and declared is read as the same symbol in both places. -/
theorem name_of_reads {name : String}
    (uses : Reads (Statement.render [.instruction (.address (.symbol name))]).toList used)
    (declares : Reads (Statement.render [.label name]).toList declared) :
    ∃ symbol, used = [.instruction (.address (.symbol symbol))] ∧ declared = [.label symbol] := by
  have useText : (Statement.render [.instruction (.address (.symbol name))]).toList =
      '@' :: (name.toList ++ '\n' :: []) := by
    simp [Statement.text, Instruction.text, Operand.text]
  have labelText : (Statement.render [.label name]).toList = '(' :: ((name.toList ++ [')']) ++ '\n' :: []) := by
    simp [Statement.text]
  rw [useText] at uses
  rw [labelText] at declares
  by_cases broken : '\n' ∈ name.toList
  · -- The first line of the label would have to be closed, and no operand is.
    obtain ⟨front, back, split, clear⟩ := List.eq_append_cons_of_mem broken
    rw [split, List.append_assoc, List.cons_append] at uses
    rw [split, List.append_assoc, List.append_assoc, List.cons_append] at declares
    obtain ⟨label, _, _, opened, _⟩ := declares.opening (by decide) clear
    obtain ⟨symbol, _, closed, _⟩ := label_of_readStatement opened
    obtain ⟨use, _, _, read, _⟩ := uses.opening (by decide) clear
    rw [closed] at read
    exact absurd read (readStatement_closed_ne symbol use)
  · have clear : '\n' ∉ name.toList ++ [')'] := by simpa using broken
    obtain ⟨use, none, rfl, read, nothing⟩ := uses.opening (by decide) broken
    obtain ⟨label, none', rfl, opened, nothing'⟩ := declares.opening (by decide) clear
    have empty : none = [] := List.map_eq_nil_iff.mp nothing.symm
    have empty' : none' = [] := List.map_eq_nil_iff.mp nothing'.symm
    subst empty empty'
    obtain ⟨symbol, legal, closed, rfl⟩ := label_of_readStatement opened
    rcases cleanLine_concat (show isPlain ')' = true by decide) name.toList with lost | kept
    · rw [← lost, closed] at read
      exact absurd read (readStatement_closed_ne symbol use)
    · have cleaned : cleanLine name.toList = symbol := List.append_cancel_right (kept.symm.trans closed)
      rw [cleaned] at read
      have written := readStatement_of_written (Written.symbol symbol legal)
      exact ⟨String.ofList symbol, by rw [Except.ok.inj (read.symm.trans written)], rfl⟩

end Hack.Assembly
