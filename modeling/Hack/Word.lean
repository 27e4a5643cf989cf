namespace Hack

abbrev Word := BitVec 16

/-- The highest address an instruction can carry: the leading bit of its word
tells address instructions and compute instructions apart. -/
def maxAddress : Nat := 32767

/-- The sixteen binary digits of a word, most significant first. -/
def Word.binary (word : Word) : String :=
  String.ofList ((List.range 16).map fun i => if word.getMsbD i then '1' else '0')

theorem Word.length_binary (word : Word) : (Word.binary word).length = 16 := by
  simp [Word.binary, String.length_ofList]

end Hack
