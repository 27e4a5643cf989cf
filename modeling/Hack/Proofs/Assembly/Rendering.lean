import Hack.Proofs.Assembly.Cleaning

namespace Hack.Assembly

open Hack.Text

def Statement.Named (property : String → Prop) : Statement → Prop
  | .label name => property name
  | .instruction (.address (.symbol name)) => property name
  | _ => True

/-- The names in a statement are symbols. -/
def Statement.Legal (statement : Statement) : Prop :=
  statement.Named fun name => isSymbol name.toList = true

/-- Literals as they are read. -/
def Statement.bounded : Statement → Statement
  | .instruction (.address (.literal value)) => .instruction (.address (.literal (min value maxLiteral)))
  | statement => statement

/-- A character that cleaning keeps wherever it stands. -/
def isPlain (c : Char) : Bool :=
  !isBlank c && c != '/'

variable {c : Char} {text line name rest : List Char} {statement : Statement} {statements first : List Statement}

theorem isPlain_of_ascii {c : Char} (low : 33 ≤ c.toNat) (high : c.toNat ≤ 126) (noSlash : c ≠ '/') :
    isPlain c = true := by
  have noBlank : isBlank c = false := by
    simp only [isBlank, blankRanges, List.any_cons, List.any_nil, Bool.or_false, Bool.or_eq_false_iff,
      Bool.and_eq_false_iff, decide_eq_false_iff_not]
    omega
  simp [isPlain, noBlank, noSlash]

theorem ascii_of_symbolChar {c : Char} (inSymbol : (opensSymbol c || c.isDigit) = true) :
    33 ≤ c.toNat ∧ c.toNat ≤ 126 := by
  rcases Bool.or_eq_true_iff.mp inSymbol with opens | digit
  · rcases opensSymbol_cases opens with ⟨low, high⟩ | ⟨low, high⟩ | mark
    · omega
    · omega
    · simp only [List.mem_cons, List.not_mem_nil, or_false] at mark
      rcases mark with rfl | rfl | rfl | rfl <;> decide
  · obtain ⟨low, high⟩ := Char.isDigit_iff_toNat.mp digit
    exact ⟨Nat.le_trans (by decide) low, Nat.le_trans high (by decide)⟩

theorem isPlain_of_symbolChar {c : Char} (inSymbol : (opensSymbol c || c.isDigit) = true) :
    isPlain c = true := by
  obtain ⟨low, high⟩ := ascii_of_symbolChar inSymbol
  refine isPlain_of_ascii low high ?_
  rintro rfl
  contradiction

theorem symbolChar_of_isSymbol (legal : isSymbol name = true) :
    ∀ c ∈ name, (opensSymbol c || c.isDigit) = true := by
  cases name with
  | nil => contradiction
  | cons first rest =>
      simp only [isSymbol, Bool.and_eq_true, List.all_eq_true] at legal
      intro c member
      rcases List.mem_cons.mp member with rfl | later
      · rw [legal.1, Bool.true_or]
      · exact legal.2 c later

theorem lineFeed_not_mem_symbol (legal : isSymbol name = true) : '\n' ∉ name := by
  intro member
  have plain := isPlain_of_symbolChar (symbolChar_of_isSymbol legal _ member)
  contradiction

theorem isSymbol_append {name other : String} (legal : isSymbol name.toList = true)
    (chars : ∀ c ∈ other.toList, (opensSymbol c || c.isDigit) = true) : isSymbol (name ++ other).toList = true := by
  rw [String.toList_append]
  cases letters : name.toList with
  | nil =>
      rw [letters] at legal
      contradiction
  | cons first rest =>
      rw [letters] at legal
      simp only [isSymbol, Bool.and_eq_true, List.all_eq_true] at legal
      simp only [List.cons_append, isSymbol, Bool.and_eq_true, List.all_eq_true]
      refine ⟨legal.1, fun c member => ?_⟩
      rcases List.mem_append.mp member with inName | inOther
      · exact legal.2 c inName
      · exact chars c inOther

theorem symbolChar_toString (value : Nat) : ∀ c ∈ (toString value).toList, (opensSymbol c || c.isDigit) = true := by
  intro c member
  rw [show (toString value).toList = Nat.toDigits 10 value from Nat.toList_repr] at member
  rw [Nat.isDigit_of_mem_toDigits (by decide) (by decide) member, Bool.or_true]

theorem cleanLine_cons (plain : isPlain c = true) : cleanLine (c :: rest) = c :: cleanLine rest := by
  obtain ⟨visible, noSlash⟩ : isBlank c = false ∧ c ≠ '/' := by simpa [isPlain] using plain
  rw [cleanLine, List.filter_cons_of_pos (by simp [visible]),
    beforeComment_cons fun more slash _ => noSlash slash, cleanLine]

theorem cleanLine_of_isPlain (plain : ∀ c ∈ line, isPlain c = true) : cleanLine line = line := by
  induction line with
  | nil => rfl
  | cons c rest ih =>
      obtain ⟨one, more⟩ := List.forall_mem_cons.mp plain
      rw [cleanLine_cons one, ih more]

theorem isPlain_text (legal : statement.Legal) : ∀ c ∈ statement.text.toList, isPlain c = true := by
  have names : ∀ {name : String}, isSymbol name.toList = true → ∀ c ∈ name.toList, isPlain c = true :=
    fun legal c member => isPlain_of_symbolChar (symbolChar_of_isSymbol legal c member)
  intro c member
  cases statement with
  | label name =>
      have inside : c = '(' ∨ c ∈ name.toList ∨ c = ')' := by simpa [Statement.text] using member
      rcases inside with rfl | inName | rfl
      · rfl
      · exact names legal c inName
      · rfl
  | instruction body =>
      cases body with
      | address operand =>
          cases operand with
          | literal value =>
              have inside : c = '@' ∨ c ∈ (toString value).toList := by
                simpa [Statement.text, Instruction.text, Operand.text] using member
              rcases inside with rfl | digit
              · rfl
              · exact isPlain_of_symbolChar (symbolChar_toString value c digit)
          | symbol name =>
              have inside : c = '@' ∨ c ∈ name.toList := by
                simpa [Statement.text, Instruction.text, Operand.text] using member
              rcases inside with rfl | inName
              · rfl
              · exact names legal c inName
      | compute dest comp jump =>
          have dests : ∀ dest ∈ Dest.all, dest.written.all isPlain = true := by decide
          have comps : ∀ comp ∈ Comp.all, comp.mnemonic.toList.all isPlain = true := by decide
          have jumps : ∀ jump ∈ Jump.all, jump.written.all isPlain = true := by decide
          rw [Statement.text, toList_compute_text, List.mem_append, List.mem_append] at member
          rcases member with (inDest | inComp) | inJump
          · exact List.all_eq_true.mp (dests dest (Dest.mem_all dest)) c inDest
          · exact List.all_eq_true.mp (comps comp (Comp.mem_all comp)) c inComp
          · exact List.all_eq_true.mp (jumps jump (Jump.mem_all jump)) c inJump

theorem natural?_toString (value : Nat) : natural? (toString value).toList = some value := by
  have digits : (toString value).toList = Nat.toDigits 10 value := Nat.toList_repr
  have all : (Nat.toDigits 10 value).all Char.isDigit = true :=
    List.all_eq_true.mpr fun c member => Nat.isDigit_of_mem_toDigits (by decide) (by decide) member
  have nonempty : (Nat.toDigits 10 value).isEmpty = false := by
    simp [Nat.toDigits_ne_nil]
  rw [digits, natural?, all, nonempty]
  exact congrArg some Nat.ofDigitChars_ten_toDigits

theorem toString_injective {value other : Nat} (same : toString value = toString other) : value = other := by
  have numerals : natural? (toString value).toList = natural? (toString other).toList := by rw [same]
  rw [natural?_toString, natural?_toString] at numerals
  exact Option.some.inj numerals

theorem written_text (legal : statement.Legal) : Written statement.text.toList statement.bounded := by
  cases statement with
  | label name =>
      have written := Written.label name.toList legal
      rw [String.ofList_toList] at written
      simpa [Statement.text, Statement.bounded] using written
  | instruction body =>
      cases body with
      | address operand =>
          cases operand with
          | literal value =>
              have written := Written.literal _ _ (natural?_toString value)
              simpa [Statement.text, Instruction.text, Operand.text, Statement.bounded] using written
          | symbol name =>
              have written := Written.symbol name.toList legal
              rw [String.ofList_toList] at written
              simpa [Statement.text, Instruction.text, Operand.text, Statement.bounded] using written
      | compute dest comp jump => exact Written.compute dest comp jump

theorem Written.ne_nil (written : Written text statement) : text ≠ [] := by
  cases written with
  | label name legal => simp
  | literal digits value numeral => simp
  | symbol name legal => simp
  | compute dest comp jump =>
      obtain ⟨c, more, text, _⟩ := head?_compute_text dest comp jump
      simp [text]

theorem toList_render_cons : (Statement.render (statement :: statements)).toList =
    statement.text.toList ++ '\n' :: (Statement.render statements).toList := by
  simp [Statement.render_cons]

theorem lines_render (clear : ∀ statement ∈ statements, '\n' ∉ statement.text.toList) :
    lines (Statement.render statements).toList = statements.map fun statement => statement.text.toList := by
  induction statements with
  | nil => rfl
  | cons statement rest ih =>
      obtain ⟨one, more⟩ := List.forall_mem_cons.mp clear
      rw [toList_render_cons, lines_line one, ih more, List.map_cons]

theorem endsLine_render (statements : List Statement) : EndsLine (Statement.render statements).toList := by
  induction statements with
  | nil => exact .inl rfl
  | cons statement rest ih =>
      rw [toList_render_cons, ← List.singleton_append, ← List.append_assoc]
      exact EndsLine.append (.inr ⟨_, rfl⟩) ih

theorem lineFeed_not_mem_text (clear : statement.Named fun name => '\n' ∉ name.toList) :
    '\n' ∉ statement.text.toList := by
  have unnamed : statement.Legal → '\n' ∉ statement.text.toList := by
    intro legal member
    have plain := isPlain_text legal _ member
    contradiction
  cases statement with
  | label name => simpa [Statement.text, Statement.Named] using clear
  | instruction body =>
      cases body with
      | compute dest comp jump => exact unnamed trivial
      | address operand =>
          cases operand with
          | literal value => exact unnamed trivial
          | symbol name => simpa [Statement.text, Instruction.text, Operand.text, Statement.Named] using clear

theorem Statement.Named.imp {property other : String → Prop} (weaker : ∀ name, property name → other name)
    (named : statement.Named property) : statement.Named other := by
  cases statement with
  | label name => exact weaker name named
  | instruction body =>
      cases body with
      | compute dest comp jump => trivial
      | address operand =>
          cases operand with
          | literal value => trivial
          | symbol name => exact weaker name named

theorem Statement.Legal.clear (legal : statement.Legal) :
    statement.Named fun name => '\n' ∉ name.toList := by
  refine legal.imp fun name symbol member => ?_
  have plain := isPlain_of_symbolChar (symbolChar_of_isSymbol symbol _ member)
  contradiction

theorem cleanedLines_render (legal : ∀ statement ∈ statements, statement.Legal) :
    cleanedLines (Statement.render statements).toList = statements.map fun statement => statement.text.toList := by
  have clear := fun statement member => lineFeed_not_mem_text (legal statement member).clear
  have kept : (statements.map fun statement => statement.text.toList).filter (fun line => !line.isEmpty) =
      statements.map fun statement => statement.text.toList := by
    refine List.filter_eq_self.mpr fun text member => ?_
    obtain ⟨statement, inside, rfl⟩ := List.mem_map.mp member
    have nonempty := (written_text (legal statement inside)).ne_nil
    simpa using nonempty
  have cleaned : (lines (Statement.render statements).toList).map cleanLine =
      statements.map fun statement => statement.text.toList := by
    rw [lines_render clear, List.map_map]
    exact List.map_congr_left fun statement member => cleanLine_of_isPlain (isPlain_text (legal statement member))
  rw [cleanedLines, cleaned, kept]

/-- Rendered statements are read as they are, but for their literals. -/
theorem reads_render (legal : ∀ statement ∈ statements, statement.Legal) :
    Reads (Statement.render statements).toList (statements.map Statement.bounded) := by
  rw [Reads, cleanedLines_render legal, List.map_map, List.map_map]
  exact List.map_congr_left fun statement member =>
    readStatement_of_written (written_text (legal statement member))

theorem bounded_eq_self (whole : List Statement)
    (fits : ∀ body ∈ code (statements.map Statement.bounded), body.Fits whole) :
    statements.map Statement.bounded = statements := by
  induction statements with
  | nil => rfl
  | cons statement rest ih =>
      have more : ∀ body ∈ code (rest.map Statement.bounded), body.Fits whole := by
        intro body member
        refine fits body ?_
        rw [List.map_cons, ← List.singleton_append, code_append]
        exact List.mem_append_right _ member
      rw [List.map_cons, ih more]
      congr 1
      cases statement with
      | label name => rfl
      | instruction body =>
          cases body with
          | compute dest comp jump => rfl
          | address operand =>
              cases operand with
              | symbol name => rfl
              | literal value =>
                  have within : min value maxLiteral ≤ maxAddress := fits _ List.mem_cons_self
                  have whole : min value maxLiteral = value := by
                    simp only [maxLiteral, maxAddress] at within ⊢
                    omega
                  rw [Statement.bounded, whole]

end Hack.Assembly
