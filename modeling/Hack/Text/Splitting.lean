import Hack.Text.Blank

namespace Hack.Text

/-! Ways to take a text apart.

A text is a list of characters.  It is cut into lines and into words, a line
is cut off at its comment, and a line is trimmed of the blanks around it.  A
carriage return needs no rule of its own: it is blank, and both languages
ignore blanks at the end of a line.
-/

/-- Puts a character in front of the stretches that follow it: it joins the
first of them, or closes an empty one. -/
def extend (closes : Char → Bool) (c : Char) (following : List (List Char)) : List (List Char) :=
  if closes c then [] :: following
  else match following with
    | [] => [[c]]
    | stretch :: more => (c :: stretch) :: more

/-- The stretches of a text, each ended by a character that closes it.  The
last one needs no closing character, and nothing after the last closing
character is no stretch. -/
def stretches (closes : Char → Bool) (text : List Char) : List (List Char) :=
  text.foldr (extend closes) []

/-- The lines of a text, without the line feeds that end them. -/
def lines (text : List Char) : List (List Char) :=
  stretches (· == '\n') text

/-- The words of a text: its longest parts without blanks. -/
def words (text : List Char) : List (List Char) :=
  (stretches isBlank text).filter fun word => !word.isEmpty

/-- What stands before the first `//`, or everything. -/
def beforeComment (text : List Char) : List Char :=
  keep [] text
where
  keep (kept : List Char) : List Char → List Char
    | '/' :: '/' :: _ => kept.reverse
    | c :: rest => keep (c :: kept) rest
    | [] => kept.reverse

/-- A text without the blanks at its two ends. -/
def trim (text : List Char) : List Char :=
  ((text.dropWhile isBlank).reverse.dropWhile isBlank).reverse

/-- The parts before and after the first mark, which belongs to neither. -/
def cutAt? (mark : Char) (text : List Char) : Option (List Char × List Char) :=
  match text.dropWhile (· != mark) with
  | [] => none
  | _ :: rest => some (text.takeWhile (· != mark), rest)

variable {closes : Char → Bool} {c : Char} {rest text kept stretch : List Char}

theorem stretches_nil : stretches closes [] = [] := rfl

theorem stretches_cons : stretches closes (c :: rest) = extend closes c (stretches closes rest) := rfl

theorem extend_ne_nil {following : List (List Char)} : extend closes c following ≠ [] := by
  unfold extend
  split
  · simp
  · split <;> simp

theorem extend_append {following more : List (List Char)} (opened : following ≠ []) :
    extend closes c (following ++ more) = extend closes c following ++ more := by
  unfold extend
  split
  · rfl
  · cases following with
    | nil => contradiction
    | cons stretch others => rfl

theorem stretches_concat_ne_nil : stretches closes (text ++ [c]) ≠ [] := by
  cases text <;> simpa only [List.nil_append, List.cons_append, stretches_cons] using extend_ne_nil

/-- A closed stretch does not depend on the text that follows it. -/
theorem stretches_append_closing (closing : closes c = true) :
    stretches closes (text ++ c :: rest) =
      stretches closes (text ++ [c]) ++ stretches closes rest := by
  induction text with
  | nil => simp [stretches_cons, stretches_nil, extend, closing]
  | cons first tail ih =>
      simp only [List.cons_append, stretches_cons, ih, extend_append stretches_concat_ne_nil]

theorem mem_extend {following : List (List Char)} (member : stretch ∈ extend closes c following) :
    stretch ∈ following ∨ stretch = [] ∨
      closes c = false ∧ ∃ tail, stretch = c :: tail ∧ (tail = [] ∨ tail ∈ following) := by
  unfold extend at member
  split at member
  · rcases List.mem_cons.mp member with empty | later
    · exact .inr (.inl empty)
    · exact .inl later
  · next stays =>
      have opens : closes c = false := by simpa using stays
      split at member
      · exact .inr (.inr ⟨opens, [], List.mem_singleton.mp member, .inl rfl⟩)
      · rcases List.mem_cons.mp member with first | later
        · exact .inr (.inr ⟨opens, _, first, .inr List.mem_cons_self⟩)
        · exact .inl (List.mem_cons_of_mem _ later)

theorem not_closes_of_mem_stretches (member : stretch ∈ stretches closes text) :
    ∀ c ∈ stretch, closes c = false := by
  induction text generalizing stretch with
  | nil => contradiction
  | cons first rest ih =>
      rw [stretches_cons] at member
      rcases mem_extend member with later | rfl | ⟨opens, tail, rfl, rfl | inside⟩
      · exact ih later
      · exact fun c inside => absurd inside List.not_mem_nil
      · exact List.forall_mem_singleton.mpr opens
      · exact List.forall_mem_cons.mpr ⟨opens, ih inside⟩

theorem mem_of_mem_stretches (member : stretch ∈ stretches closes text) : ∀ c ∈ stretch, c ∈ text := by
  induction text generalizing stretch with
  | nil => contradiction
  | cons first rest ih =>
      rw [stretches_cons] at member
      rcases mem_extend member with later | rfl | ⟨_, tail, rfl, rfl | inside⟩
      · exact fun c member => List.mem_cons_of_mem first (ih later c member)
      · exact fun c inside => absurd inside List.not_mem_nil
      · exact List.forall_mem_singleton.mpr List.mem_cons_self
      · exact List.forall_mem_cons.mpr
          ⟨List.mem_cons_self, fun c member => List.mem_cons_of_mem first (ih inside c member)⟩

theorem lines_append_lineFeed : lines (text ++ '\n' :: rest) = lines (text ++ ['\n']) ++ lines rest :=
  stretches_append_closing rfl

/-- A closing character at the end ends the last stretch, or it closes an empty one. -/
theorem stretches_concat_closing (closing : closes c = true) (text : List Char) :
    stretches closes (text ++ [c]) = stretches closes text ∨
      stretches closes (text ++ [c]) = stretches closes text ++ [[]] := by
  induction text with
  | nil => simp [stretches_cons, stretches_nil, extend, closing]
  | cons first rest ih =>
      simp only [List.cons_append, stretches_cons]
      rcases ih with same | more
      · exact .inl (by rw [same])
      · rw [more]
        cases found : stretches closes rest with
        | nil => cases opens : closes first <;> simp [extend, opens]
        | cons stretch others => exact .inr (extend_append (List.cons_ne_nil _ _))

/-- What else is to be said about words follows from this equation. -/
theorem words_append_blank (blank : isBlank c = true) : words (text ++ c :: rest) = words text ++ words rest := by
  have closed : (stretches isBlank (text ++ [c])).filter (fun word => !word.isEmpty) = words text := by
    rcases stretches_concat_closing blank text with same | more
    · rw [same, words]
    · rw [more, List.filter_append, words]
      simp
  rw [words, stretches_append_closing blank, List.filter_append, closed]
  rfl

theorem words_cons_blank (blank : isBlank c = true) : words (c :: rest) = words rest := by
  rw [← List.nil_append (c :: rest), words_append_blank blank]
  rfl

theorem words_eq_nil_iff : words text = [] ↔ ∀ c ∈ text, isBlank c = true := by
  induction text with
  | nil => simp [words, stretches_nil]
  | cons c rest ih =>
      cases blank : isBlank c with
      | true => simp [words_cons_blank blank, ih, blank]
      | false =>
          cases found : stretches isBlank rest <;> simp [words, stretches_cons, extend, blank, found]

theorem isBlank_of_mem_takeWhile (text : List Char) : ∀ c ∈ text.takeWhile isBlank, isBlank c = true :=
  List.all_eq_true.mp List.all_takeWhile

/-- What is trimmed off behind the blanks at the front are the blanks at the end. -/
theorem dropWhile_eq_trim_append (text : List Char) : text.dropWhile isBlank =
    trim text ++ ((text.dropWhile isBlank).reverse.takeWhile isBlank).reverse := by
  rw [trim, ← List.reverse_append, List.takeWhile_append_dropWhile, List.reverse_reverse]

theorem words_trim (text : List Char) : words (trim text) = words text := by
  have opening : ∀ blanks rest : List Char, (∀ c ∈ blanks, isBlank c = true) → words (blanks ++ rest) = words rest := by
    intro blanks rest blank
    induction blanks with
    | nil => rfl
    | cons c blanks ih =>
        rw [List.cons_append, words_cons_blank (blank c List.mem_cons_self)]
        exact ih fun c member => blank c (List.mem_cons_of_mem _ member)
  have closing : ∀ front blanks : List Char, (∀ c ∈ blanks, isBlank c = true) → words (front ++ blanks) = words front := by
    intro front blanks blank
    cases blanks with
    | nil => rw [List.append_nil]
    | cons c blanks =>
        have none := words_eq_nil_iff.mpr fun c member => blank c (List.mem_cons_of_mem _ member)
        rw [words_append_blank (blank c List.mem_cons_self), none, List.append_nil]
  calc words (trim text)
    _ = words (text.dropWhile isBlank) := by
        rw [dropWhile_eq_trim_append, closing]
        exact fun c member => isBlank_of_mem_takeWhile _ c (List.mem_reverse.mp member)
    _ = words (text.takeWhile isBlank ++ text.dropWhile isBlank) :=
        (opening _ _ (isBlank_of_mem_takeWhile text)).symm
    _ = words text := by rw [List.takeWhile_append_dropWhile]

theorem beforeComment_comment : beforeComment ('/' :: '/' :: rest) = [] := rfl

theorem keep_cons (plain : ∀ more, c = '/' → rest = '/' :: more → False) :
    beforeComment.keep kept (c :: rest) = beforeComment.keep (c :: kept) rest := by
  rw [beforeComment.keep]
  exact plain

theorem keep_eq_append (text kept : List Char) :
    beforeComment.keep kept text = kept.reverse ++ beforeComment text := by
  induction text generalizing kept with
  | nil => simp [beforeComment, beforeComment.keep]
  | cons c rest ih =>
      by_cases marked : ∃ more, c = '/' ∧ rest = '/' :: more
      · obtain ⟨more, rfl, rfl⟩ := marked
        simp [beforeComment, beforeComment.keep]
      · have plain : ∀ more, c = '/' → rest = '/' :: more → False :=
          fun more slash second => marked ⟨more, slash, second⟩
        rw [keep_cons plain, beforeComment, keep_cons plain, ih, ih]
        simp

theorem beforeComment_cons (plain : ∀ more, c = '/' → rest = '/' :: more → False) :
    beforeComment (c :: rest) = c :: beforeComment rest := by
  rw [beforeComment, keep_cons plain, keep_eq_append]
  rfl

theorem prefix_beforeComment (text : List Char) : beforeComment text <+: text := by
  induction text with
  | nil => exact List.prefix_rfl
  | cons c rest ih =>
      by_cases marked : ∃ more, c = '/' ∧ rest = '/' :: more
      · obtain ⟨more, rfl, rfl⟩ := marked
        exact List.nil_prefix
      · rw [beforeComment_cons fun more slash second => marked ⟨more, slash, second⟩]
        exact (List.prefix_cons_inj c).mpr ih

/-- No comment is opened by what stands before the first one. -/
theorem beforeComment_beforeComment (text : List Char) :
    beforeComment (beforeComment text) = beforeComment text := by
  induction text with
  | nil => rfl
  | cons c rest ih =>
      by_cases marked : ∃ more, c = '/' ∧ rest = '/' :: more
      · obtain ⟨more, rfl, rfl⟩ := marked
        rfl
      · have plain : ∀ more, c = '/' → rest = '/' :: more → False :=
          fun more slash second => marked ⟨more, slash, second⟩
        have still : ∀ more, c = '/' → beforeComment rest = '/' :: more → False := by
          intro more slash second
          obtain ⟨others, whole⟩ := prefix_beforeComment rest
          rw [second, List.cons_append] at whole
          exact plain _ slash whole.symm
        rw [beforeComment_cons plain, beforeComment_cons still, ih]

end Hack.Text
