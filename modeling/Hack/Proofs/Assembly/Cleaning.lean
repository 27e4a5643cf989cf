import Hack.Proofs.Assembly.Address
import Hack.Proofs.Assembly.Written
import Hack.Proofs.Sequence

namespace Hack.Assembly

open Hack.Text

/-- A text whose last line, if there is one, has been ended. -/
def EndsLine (text : List Char) : Prop :=
  text = [] ∨ ∃ front, text = front ++ ['\n']

/-- What cleaning leaves of the lines of a text. -/
def cleanedLines (text : List Char) : List (List Char) :=
  ((lines text).map cleanLine).filter fun line => !line.isEmpty

def opensLabel : List Char → Bool
  | '(' :: _ => true
  | _ => false

def SourceLine.isLabel (line : SourceLine) : Bool :=
  opensLabel line.text.toList

/-- The instruction slots that a text fills: its cleaned lines but for those
that declare labels. -/
def slots (source : String) : Nat :=
  (clean source).countP fun line => !line.isLabel

/-- A text consists of lines that write these statements. -/
def Reads (text : List Char) (statements : List Statement) : Prop :=
  (cleanedLines text).map readStatement = statements.map .ok

variable {text line front rest : List Char} {first second statements : List Statement}
variable {source : String} {program : List ParsedLine}

theorem EndsLine.append (left : EndsLine front) (right : EndsLine rest) : EndsLine (front ++ rest) := by
  rcases right with rfl | ⟨middle, rfl⟩
  · simpa using left
  · exact .inr ⟨front ++ middle, by simp⟩

theorem lines_line (clear : '\n' ∉ line) : lines (line ++ '\n' :: rest) = line :: lines rest := by
  induction line with
  | nil => rfl
  | cons c line ih =>
      have plain : (c == '\n') = false := by
        simp only [beq_eq_false_iff_ne]
        rintro rfl
        exact clear List.mem_cons_self
      have tail := ih (fun member => clear (List.mem_cons_of_mem c member))
      unfold lines at tail ⊢
      rw [List.cons_append, stretches_cons, tail, extend, plain]
      rfl

theorem lines_unended (clear : '\n' ∉ line) (nonempty : line ≠ []) : lines line = [line] := by
  induction line with
  | nil => contradiction
  | cons c line ih =>
      obtain ⟨plain, others⟩ : '\n' ≠ c ∧ '\n' ∉ line := by simpa using clear
      cases line with
      | nil => simp [lines, stretches_cons, stretches_nil, extend, Ne.symm plain]
      | cons next line =>
          have rest := ih others (List.cons_ne_nil next line)
          unfold lines at rest ⊢
          rw [stretches_cons, rest]
          simp [extend, Ne.symm plain]

theorem lines_intercalate {parts : List (List Char)}
    (whole : ∀ part ∈ parts, '\n' ∉ part ∧ part ≠ []) : lines (['\n'].intercalate parts) = parts := by
  induction parts with
  | nil => rfl
  | cons part parts ih =>
      obtain ⟨⟨clear, nonempty⟩, others⟩ := List.forall_mem_cons.mp whole
      cases parts with
      | nil => rw [List.intercalate_singleton, lines_unended clear nonempty]
      | cons next parts =>
          rw [List.intercalate_cons_cons, List.append_assoc, List.singleton_append, lines_line clear, ih others]

theorem lines_append (closed : EndsLine front) : lines (front ++ rest) = lines front ++ lines rest := by
  rcases closed with rfl | ⟨middle, rfl⟩
  · rfl
  · rw [List.append_assoc, List.singleton_append, lines_append_lineFeed]

theorem cleanedLines_append (closed : EndsLine front) :
    cleanedLines (front ++ rest) = cleanedLines front ++ cleanedLines rest := by
  simp [cleanedLines, lines_append closed]

theorem cleanedLines_line (clear : '\n' ∉ line) :
    cleanedLines (line ++ ['\n']) = if cleanLine line = [] then [] else [cleanLine line] := by
  rw [cleanedLines, lines_line clear]
  cases cleaned : cleanLine line <;> simp [lines, stretches_nil, cleaned]

theorem map_text_clean : (clean source).map (fun line => line.text.toList) = cleanedLines source.toList := by
  rw [clean, cleanedLines]
  generalize 1 = start
  induction lines source.toList generalizing start with
  | nil => rfl
  | cons line rest ih =>
      rw [List.zipIdx_cons, List.filterMap_cons, List.map_cons, List.filter_cons]
      cases cleaned : cleanLine line with
      | nil => simpa [cleaned] using ih (start + 1)
      | cons c more => simpa [cleaned] using ih (start + 1)

theorem slots_eq (source : String) :
    slots source = (cleanedLines source.toList).countP fun line => !opensLabel line := by
  rw [slots, ← map_text_clean, List.countP_map]
  rfl

theorem slots_append {before after : String} (closed : EndsLine before.toList) :
    slots (before ++ after) = slots before + slots after := by
  rw [slots_eq, slots_eq, slots_eq, String.toList_append, cleanedLines_append closed, List.countP_append]

theorem Reads.unique (one : Reads text first) (other : Reads text second) : first = second := by
  have same : first.map Except.ok = second.map (Except.ok (ε := Fault)) := one.symm.trans other
  exact List.map_injective_iff.mpr (fun _ _ => Except.ok.inj) same

theorem Reads.split (closed : EndsLine front) (whole : Reads (front ++ rest) statements) :
    ∃ first second, Reads front first ∧ Reads rest second ∧ statements = first ++ second := by
  rw [Reads, cleanedLines_append closed, List.map_append] at whole
  obtain ⟨first, second, rfl, left, right⟩ := List.map_eq_append_iff.mp whole.symm
  exact ⟨first, second, left.symm, right.symm, rfl⟩

theorem SourceLine.parse_cases {line : SourceLine} {parsed : ParsedLine} (read : line.parse = .ok parsed) :
    parsed.toSourceLine = line ∧ readStatement line.text.toList = .ok parsed.statement := by
  obtain ⟨statement, found, finished⟩ := steps_of_bind read
  cases finished
  exact ⟨rfl, steps_of_blame found⟩

theorem parseLines_cases {lines : List SourceLine} (read : parseLines lines = .ok program) :
    program.map ParsedLine.toSourceLine = lines ∧
      ∀ line ∈ program, readStatement line.text.toList = .ok line.statement := by
  unfold parseLines at read
  induction lines generalizing program with
  | nil =>
      cases read
      exact ⟨rfl, by simp⟩
  | cons first rest ih =>
      obtain ⟨parsed, others, one, more, rfl⟩ := steps_of_mapM read
      obtain ⟨rfl, statement⟩ := SourceLine.parse_cases one
      obtain ⟨rfl, statements⟩ := ih more
      exact ⟨rfl, List.forall_mem_cons.mpr ⟨statement, statements⟩⟩

theorem reads_of_parseLines (read : parseLines (clean source) = .ok program) :
    Reads source.toList (statementsOf program) := by
  obtain ⟨lines, statements⟩ := parseLines_cases read
  rw [Reads, ← map_text_clean, ← lines, statementsOf, List.map_map, List.map_map, List.map_map]
  exact List.map_congr_left statements

theorem opensLabel_of_readStatement {statement : Statement} (read : readStatement text = .ok statement) :
    opensLabel text = statement.instruction?.isNone := by
  cases written_of_readStatement read with
  | label name legal => rfl
  | literal digits value numeral => rfl
  | symbol name legal => rfl
  | compute dest comp jump =>
      obtain ⟨c, more, text, member⟩ := head?_compute_text dest comp jump
      rw [text]
      simp only [computeOpenings, List.mem_cons, List.not_mem_nil, or_false] at member
      rcases member with rfl | rfl | rfl | rfl | rfl | rfl | rfl <;> rfl

theorem slots_of_reads (read : Reads source.toList statements) : slots source = (code statements).length := by
  rw [slots_eq]
  unfold Reads at read
  generalize cleanedLines source.toList = lines at read
  induction lines generalizing statements with
  | nil =>
      have empty : statements = [] := List.map_eq_nil_iff.mp read.symm
      simp [empty]
  | cons line lines ih =>
      cases statements with
      | nil => contradiction
      | cons statement statements =>
          obtain ⟨one, more⟩ := List.cons.inj read
          rw [List.countP_cons, ih more, opensLabel_of_readStatement one]
          cases statement <;> simp [Statement.instruction?]

end Hack.Assembly
