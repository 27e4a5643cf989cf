import Hack.Stack.Operation
import Hack.Stack.Source
import Hack.Proofs.Sequence

namespace Hack.Stack

/-! The stack language.

What a line may hold and which commands make sense is said here in terms of the
words of the line, and what is blamed on a line or a command that is wrong is
said beside it.  A line is either right or wrong, in one way, and the reading of
it finds out which.
-/

open Hack.Text

/-- A line of a file, and where it stands. -/
structure PlacedLine where
  file : String
  number : Nat
  text : List Char

/-- The lines of a file, counted from one. -/
def SourceFile.lines (file : SourceFile) : List PlacedLine :=
  ((Text.lines file.text.toList).zipIdx 1).map fun (text, number) => ⟨file.name, number, text⟩

def placedLines (files : List SourceFile) : List PlacedLine :=
  files.flatMap SourceFile.lines

/-- Decimal digits for a number that can be written in a command. -/
structure Decimal (digits : List Char) (value : Nat) : Prop where
  nonempty : digits ≠ []
  digit : ∀ c ∈ digits, c.isDigit = true
  value_eq : digitsValue digits = value
  within : value ≤ maxNumber

/-- A number as a command has it: digits, perhaps behind a plus sign. -/
def Numeral (token : List Char) (value : Nat) : Prop :=
  Decimal token value ∨ ∃ digits, token = '+' :: digits ∧ Decimal digits value

inductive Numbered : Option (List Char) → Option Nat → Prop where
  | absent : Numbered none none
  | present {token : List Char} {value : Nat} (numeral : Numeral token value) : Numbered (some token) (some value)

namespace PlacedLine

def place (line : PlacedLine) : Place := .inFile line.file line.number

/-- What stands in a line: a command, or nothing before the comment. -/
inductive Holds (line : PlacedLine) : Option Command → Prop where
  | nothing (blank : ∀ c ∈ beforeComment line.text, isBlank c = true) : line.Holds none
  | command {kind : CommandKind} {arguments : List (List Char)} {number : Option Nat}
      (split : words (beforeComment line.text) = kind.keyword.toList :: arguments)
      (numbered : Numbered arguments[1]? number) :
      line.Holds (some
        { kind := kind
          name := arguments[0]?.map String.ofList
          number := number
          file := line.file
          line := line.number
          text := String.ofList (commandText line.text) })

/-- What is wrong with a line.  An unknown keyword comes before a wrong number. -/
inductive Garbled (line : PlacedLine) : Fault → Prop where
  | keyword {first : List Char} {arguments : List (List Char)}
      (split : words (beforeComment line.text) = first :: arguments)
      (unknown : ∀ kind : CommandKind, kind.keyword ≠ String.ofList first) :
      line.Garbled (.unknownCommand (String.ofList (commandText line.text)))
  | number {kind : CommandKind} {arguments : List (List Char)} {token : List Char}
      (split : words (beforeComment line.text) = kind.keyword.toList :: arguments)
      (third : arguments[1]? = some token) (wrong : ∀ value, ¬ Numeral token value) :
      line.Garbled (.invalidArgument (String.ofList token))

end PlacedLine

/-- The indices that a segment has. -/
def Segment.Reaches (segment : Segment) (index : Nat) : Prop :=
  match segment with
  | .temp => index ≤ 7
  | .pointer => index ≤ 1
  | _ => True

def CommandKind.TakesName : CommandKind → Prop
  | .arithmetic _ | .ret => False
  | _ => True

namespace Command

/-- The command has a segment and an index. -/
structure Slot (command : Command) (segment : Segment) (index : Nat) : Prop where
  name : command.name = some segment.name
  number : command.number = some index

def Accesses (command : Command) : Prop := command.kind = .push ∨ command.kind = .pop

/-- What a command needs to make sense. -/
def WellFormed (command : Command) : Prop :=
  match command.kind with
  | .push => ∃ segment index, command.Slot segment index ∧ segment.Reaches index ∧
      (segment = .constant → index ≤ maxAddress)
  | .pop => ∃ segment index, command.Slot segment index ∧ segment.Reaches index ∧ segment ≠ .constant
  | .label | .goto | .ifGoto => ∃ name, command.name = some name
  | .function | .call => ∃ name number, command.name = some name ∧ command.number = some number
  | .arithmetic _ | .ret => True

/-- What is wrong with a command.  The segment is judged before the index is
missed, and the index is judged last. -/
inductive IllFormed (command : Command) : Fault → Prop where
  | nameless (needed : command.kind.TakesName) (missing : command.name = none) :
      command.IllFormed (.missingArgument command.text)
  | uncounted (needed : command.kind = .function ∨ command.kind = .call) (missing : command.number = none) :
      command.IllFormed (.missingArgument command.text)
  | segment {name : String} (needed : command.Accesses) (given : command.name = some name)
      (unknown : ∀ segment : Segment, segment.name ≠ name) : command.IllFormed (.unsupportedSegment name)
  | unindexed {segment : Segment} (needed : command.Accesses) (given : command.name = some segment.name)
      (missing : command.number = none) : command.IllFormed (.missingArgument command.text)
  | overflow {index : Nat} (kind : command.kind = .push) (slot : command.Slot .constant index)
      (high : maxAddress < index) : command.IllFormed (.addressOverflow index)
  | constant {index : Nat} (kind : command.kind = .pop) (slot : command.Slot .constant index) :
      command.IllFormed (.unsupportedSegment "constant")
  | outside {segment : Segment} {index : Nat} (needed : command.Accesses) (slot : command.Slot segment index)
      (beyond : ¬ segment.Reaches index) : command.IllFormed (.indexOutOfRange segment.name index)

end Command

variable {token : List Char} {value index : Nat} {fault : Fault} {held : Option Command}
variable {line : PlacedLine} {command : Command} {segment : Segment} {number : Option Nat}

theorem natural?_filter_iff {digits : List Char} :
    (natural? digits).filter (· ≤ maxNumber) = some value ↔ Decimal digits value := by
  rw [Option.filter_eq_some_iff]
  unfold natural?
  constructor
  · rintro ⟨read, within⟩
    split at read
    · next plain =>
        cases read
        simp only [Bool.and_eq_true, Bool.not_eq_true', List.isEmpty_eq_false_iff, List.all_eq_true] at plain
        exact ⟨plain.1, plain.2, rfl, by simpa using within⟩
    · contradiction
  · rintro ⟨nonempty, digit, rfl, within⟩
    have plain : (!digits.isEmpty && digits.all Char.isDigit) = true := by simpa [nonempty] using digit
    exact ⟨if_pos plain, by simpa using within⟩

theorem naturalUpTo?_eq_some_iff : naturalUpTo? maxNumber token = some value ↔ Numeral token value := by
  unfold naturalUpTo?
  simp only [natural?_filter_iff, Numeral]
  split
  · next rest =>
      constructor
      · intro decimal
        exact .inr ⟨rest, rfl, decimal⟩
      · rintro (decimal | ⟨digits, same, decimal⟩)
        · -- A plus sign is no digit, so a word is a numeral in one way.
          have plus := decimal.digit '+' List.mem_cons_self
          contradiction
        · cases same
          exact decimal
  · next unsigned =>
      constructor
      · exact .inl
      · rintro (decimal | ⟨digits, rfl, _⟩)
        · exact decimal
        · exact absurd rfl (unsigned digits)

theorem readNumber_of_numbered {token : Option (List Char)} (numbered : Numbered token number) :
    readNumber token = .ok number := by
  cases numbered with
  | absent => rfl
  | present numeral => rw [readNumber, naturalUpTo?_eq_some_iff.mpr numeral]

theorem readNumber_of_wrong (wrong : ∀ value, ¬ Numeral token value) :
    readNumber (some token) = .error (.invalidArgument (String.ofList token)) := by
  have unread : naturalUpTo? maxNumber token = none := by
    refine Option.eq_none_iff_forall_ne_some.mpr fun value read => ?_
    exact wrong value (naturalUpTo?_eq_some_iff.mp read)
  rw [readNumber, unread]

theorem numbered_or_wrong (token : Option (List Char)) :
    (∃ number, Numbered token number) ∨ ∃ third, token = some third ∧ ∀ value, ¬ Numeral third value := by
  cases token with
  | none => exact .inl ⟨none, .absent⟩
  | some third =>
      by_cases numeral : ∃ value, Numeral third value
      · obtain ⟨value, numeral⟩ := numeral
        exact .inl ⟨some value, .present numeral⟩
      · exact .inr ⟨third, rfl, fun value numeral' => numeral ⟨value, numeral'⟩⟩

namespace PlacedLine

def read (line : PlacedLine) : Except Error (Option Command) :=
  readLine line.file line.number line.text

theorem read_of_holds (holds : line.Holds held) : line.read = .ok held := by
  unfold read readLine
  cases holds with
  | nothing blank => simp only [commandText, words_trim, words_eq_nil_iff.mpr blank]
  | command split numbered =>
      simp only [commandText, words_trim, split, String.ofList_toList, CommandKind.ofKeyword?_keyword,
        readNumber_of_numbered numbered]
      rfl

theorem read_of_garbled (garbled : line.Garbled fault) : line.read = .error ⟨line.place, fault⟩ := by
  unfold read readLine
  cases garbled with
  | keyword split unknown =>
      have unread := (eq_none_iff_unspelled CommandKind.ofKeyword?_keyword CommandKind.keyword_of_ofKeyword?).mpr unknown
      simp only [commandText, words_trim, split, unread]
      rfl
  | number split third wrong =>
      simp only [commandText, words_trim, split, String.ofList_toList, CommandKind.ofKeyword?_keyword, third,
        readNumber_of_wrong wrong]
      rfl

theorem holds_or_garbled (line : PlacedLine) : (∃ held, line.Holds held) ∨ ∃ fault, line.Garbled fault := by
  cases split : words (beforeComment line.text) with
  | nil => exact .inl ⟨none, .nothing (words_eq_nil_iff.mp split)⟩
  | cons first arguments =>
      by_cases known : ∃ kind : CommandKind, kind.keyword = String.ofList first
      · obtain ⟨kind, spelled⟩ := known
        have split : words (beforeComment line.text) = kind.keyword.toList :: arguments := by
          rw [split, spelled, String.toList_ofList]
        rcases numbered_or_wrong arguments[1]? with ⟨number, numbered⟩ | ⟨token, third, wrong⟩
        · exact .inl ⟨_, .command split numbered⟩
        · exact .inr ⟨_, .number split third wrong⟩
      · exact .inr ⟨_, .keyword split fun kind spelled => known ⟨kind, spelled⟩⟩

end PlacedLine

namespace Segment

theorem cell_of_reaches (bounded : segment ≠ .constant) (reaches : segment.Reaches index) :
    ∃ cell, segment.cell index = .ok cell := by
  cases segment with
  | constant => contradiction
  | based base => exact ⟨_, rfl⟩
  | static => exact ⟨_, rfl⟩
  | temp => exact ⟨_, if_pos (Nat.lt_succ_of_le reaches)⟩
  | pointer => exact ⟨_, if_pos (Nat.lt_succ_of_le reaches)⟩

theorem bounded_of_not_reaches (beyond : ¬ segment.Reaches index) : segment ≠ .constant := by
  rintro rfl
  exact beyond trivial

theorem cell_of_not_reaches (beyond : ¬ segment.Reaches index) :
    segment.cell index = .error (.indexOutOfRange segment.name index) := by
  cases segment with
  | constant => exact absurd trivial beyond
  | based base => exact absurd trivial beyond
  | static => exact absurd trivial beyond
  | temp => exact if_neg fun inside => beyond (Nat.le_of_lt_succ inside)
  | pointer => exact if_neg fun inside => beyond (Nat.le_of_lt_succ inside)

end Segment

namespace Command

theorem requireSlot_of_slot (slot : command.Slot segment index) : command.requireSlot = .ok (segment, index) := by
  simp only [requireSlot, requireName, requireNumber, slot.name, slot.number, ok_bind, Segment.ofName?_name]
  rfl

theorem requireSlot_of_nameless (missing : command.name = none) :
    command.requireSlot = .error (.missingArgument command.text) := by
  simp only [requireSlot, requireName, missing, error_bind]

theorem requireSlot_of_segment {name : String} (given : command.name = some name)
    (unknown : ∀ segment : Segment, segment.name ≠ name) : command.requireSlot = .error (.unsupportedSegment name) := by
  have unread := (eq_none_iff_unspelled Segment.ofName?_name Segment.name_of_ofName?).mpr unknown
  simp only [requireSlot, requireName, given, ok_bind, unread]

theorem requireSlot_of_unindexed (given : command.name = some segment.name) (missing : command.number = none) :
    command.requireSlot = .error (.missingArgument command.text) := by
  simp only [requireSlot, requireName, requireNumber, given, missing, ok_bind, error_bind, Segment.ofName?_name]

theorem requirePush_constant (slot : command.Slot .constant index) :
    command.requirePush = if maxAddress < index then .error (.addressOverflow index) else .ok (.pushConstant index) := by
  simp only [requirePush, requireSlot_of_slot slot, ok_bind]

theorem requirePush_cell (slot : command.Slot segment index) (bounded : segment ≠ .constant) :
    command.requirePush = (segment.cell index).map .push := by
  simp only [requirePush, requireSlot_of_slot slot, ok_bind]
  rfl

theorem requirePop_cell (slot : command.Slot segment index) :
    command.requirePop = (segment.cell index).map .pop := by
  simp only [requirePop, requireSlot_of_slot slot, ok_bind]
  rfl

theorem meaning_of_requireSlot (needed : command.Accesses) (failed : command.requireSlot = .error fault) :
    command.meaning = .error fault := by
  rcases needed with kind | kind
  · simp only [meaning, kind, requirePush, failed, error_bind]
  · simp only [meaning, kind, requirePop, failed, error_bind]

theorem meaning_of_illFormed (illFormed : command.IllFormed fault) : command.meaning = .error fault := by
  cases illFormed with
  | nameless needed missing =>
      cases kind : command.kind with
      | push => exact meaning_of_requireSlot (.inl kind) (requireSlot_of_nameless missing)
      | pop => exact meaning_of_requireSlot (.inr kind) (requireSlot_of_nameless missing)
      | label | goto | ifGoto | function | call =>
          simp only [meaning, kind, requireName, missing]
          rfl
      | ret | arithmetic op =>
          rw [kind] at needed
          contradiction
  | uncounted needed missing =>
      rcases needed with kind | kind <;> cases named : command.name <;>
        simp only [meaning, kind, requireName, requireNumber, named, missing, ok_bind, error_bind]
  | segment needed given unknown => exact meaning_of_requireSlot needed (requireSlot_of_segment given unknown)
  | unindexed needed given missing => exact meaning_of_requireSlot needed (requireSlot_of_unindexed given missing)
  | overflow kind slot high => simp only [meaning, kind, requirePush_constant slot, if_pos high]
  | constant kind slot =>
      simp only [meaning, kind, requirePop_cell slot]
      rfl
  | outside needed slot beyond =>
      have failed := Segment.cell_of_not_reaches beyond
      rcases needed with kind | kind
      · simp only [meaning, kind, requirePush_cell slot (Segment.bounded_of_not_reaches beyond), failed]
        rfl
      · simp only [meaning, kind, requirePop_cell slot, failed]
        rfl

theorem meaning_of_wellFormed (wellFormed : command.WellFormed) : ∃ operation, command.meaning = .ok operation := by
  unfold WellFormed at wellFormed
  cases kind : command.kind with
  | push =>
      simp only [kind] at wellFormed
      obtain ⟨segment, index, slot, reaches, low⟩ := wellFormed
      by_cases constant : segment = .constant
      · subst constant
        exact ⟨.pushConstant index, by
          simp only [meaning, kind, requirePush_constant slot, if_neg (Nat.not_lt_of_le (low rfl))]⟩
      · obtain ⟨cell, found⟩ := Segment.cell_of_reaches constant reaches
        refine ⟨.push cell, ?_⟩
        simp only [meaning, kind, requirePush_cell slot constant, found]
        rfl
  | pop =>
      simp only [kind] at wellFormed
      obtain ⟨segment, index, slot, reaches, bounded⟩ := wellFormed
      obtain ⟨cell, found⟩ := Segment.cell_of_reaches bounded reaches
      refine ⟨.pop cell, ?_⟩
      simp only [meaning, kind, requirePop_cell slot, found]
      rfl
  | label | goto | ifGoto =>
      simp only [kind] at wellFormed
      obtain ⟨name, given⟩ := wellFormed
      simp only [meaning, kind, requireName, given]
      exact ⟨_, rfl⟩
  | function | call =>
      simp only [kind] at wellFormed
      obtain ⟨name, number, given, counted⟩ := wellFormed
      simp only [meaning, kind, requireName, requireNumber, given, counted, ok_bind]
      exact ⟨_, rfl⟩
  | ret => exact ⟨.ret, by simp only [meaning, kind]⟩
  | arithmetic op => exact ⟨.arithmetic op, by simp only [meaning, kind]⟩

theorem slot_or_illFormed (needed : command.Accesses) (named : command.kind.TakesName) :
    (∃ segment index, command.Slot segment index ∧ segment.Reaches index) ∨ ∃ fault, command.IllFormed fault := by
  cases given : command.name with
  | none => exact .inr ⟨_, .nameless named given⟩
  | some name =>
      by_cases known : ∃ segment : Segment, segment.name = name
      · obtain ⟨segment, rfl⟩ := known
        cases indexed : command.number with
        | none => exact .inr ⟨_, .unindexed needed given indexed⟩
        | some index =>
            by_cases reaches : segment.Reaches index
            · exact .inl ⟨segment, index, ⟨given, indexed⟩, reaches⟩
            · exact .inr ⟨_, .outside needed ⟨given, indexed⟩ reaches⟩
      · exact .inr ⟨_, .segment needed given fun segment same => known ⟨segment, same⟩⟩

theorem wellFormed_or_illFormed (command : Command) : command.WellFormed ∨ ∃ fault, command.IllFormed fault := by
  unfold WellFormed
  cases kind : command.kind with
  | push =>
      rcases slot_or_illFormed (.inl kind) (by rw [kind]; trivial) with ⟨segment, index, slot, reaches⟩ | wrong
      · by_cases high : segment = .constant ∧ maxAddress < index
        · obtain ⟨rfl, high⟩ := high
          exact .inr ⟨_, .overflow kind slot high⟩
        · exact .inl ⟨segment, index, slot, reaches, fun constant => Nat.le_of_not_lt fun above => high ⟨constant, above⟩⟩
      · exact .inr wrong
  | pop =>
      rcases slot_or_illFormed (.inr kind) (by rw [kind]; trivial) with ⟨segment, index, slot, reaches⟩ | wrong
      · by_cases constant : segment = .constant
        · subst constant
          exact .inr ⟨_, .constant kind slot⟩
        · exact .inl ⟨segment, index, slot, reaches, constant⟩
      · exact .inr wrong
  | label | goto | ifGoto =>
      cases given : command.name with
      | none => exact .inr ⟨_, .nameless (by rw [kind]; trivial) given⟩
      | some name => exact .inl ⟨name, rfl⟩
  | function | call =>
      cases given : command.name with
      | none => exact .inr ⟨_, .nameless (by rw [kind]; trivial) given⟩
      | some name =>
          cases counted : command.number with
          | none => exact .inr ⟨_, .uncounted (by simp [kind]) counted⟩
          | some number => exact .inl ⟨name, number, rfl, rfl⟩
  | ret | arithmetic op => exact .inl trivial

end Command

end Hack.Stack
