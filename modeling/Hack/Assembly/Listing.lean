import Hack.Assembly.Source
import Hack.Assembly.SymbolTable

namespace Hack.Assembly

/-- The word of a compute instruction: three ones and the three fields. -/
def computeWord (dest : Dest) (comp : Comp) (jump : Jump) : Word :=
  0b111#3 ++ comp.bits ++ dest.bits ++ jump.bits

/-- The word of an instruction.  Only a symbol looks at the table. -/
def Instruction.encode (table : SymbolTable) : Instruction → Except Fault (Word × SymbolTable)
  | .address (.literal value) =>
      if maxAddress < value then .error (.addressOverflow value)
      else .ok (BitVec.ofNat 16 value, table)
  | .address (.symbol name) => do
      let (cell, next) ← table.resolve name
      return (BitVec.ofNat 16 cell, next)
  | .compute dest comp jump => .ok (computeWord dest comp jump, table)

/-- Binds the labels among the lines, the first instruction of which has the
number `index`. -/
def bindLabels (table : SymbolTable) (index : Nat) : List ParsedLine → Except Error SymbolTable
  | [] => .ok table
  | line :: rest =>
      match line.statement with
      | .label name =>
          match table.bindLabel name index with
          | .ok next => bindLabels next index rest
          | .error fault => .error ⟨.line line.number, fault⟩
      | .instruction _ => bindLabels table (index + 1) rest

/-- The lines that hold instructions, with their instructions. -/
def instructions (program : List ParsedLine) : List (SourceLine × Instruction) :=
  program.filterMap fun line =>
    match line.statement with
    | .label _ => none
    | .instruction body => some (line.toSourceLine, body)

/-- One encoded instruction. -/
structure Entry where
  /-- The position in the program, which is the address in the instruction memory. -/
  index : Nat
  /-- The number of the line in the source. -/
  line : Nat
  source : String
  word : Word
deriving DecidableEq, Repr

def encodeEntry : (SourceLine × Instruction) × Nat → StateT SymbolTable (Except Error) Entry
  | ((line, body), index) => fun table => do
      let (word, next) ← (Place.line line.number).blame (body.encode table)
      return (⟨index, line.number, line.text, word⟩, next)

/-- Encodes instructions from left to right, each with the table that the ones
before it left behind. -/
def encodeAll (code : List (SourceLine × Instruction)) :
    StateT SymbolTable (Except Error) (List Entry) :=
  code.zipIdx.mapM encodeEntry

/-- The entries of a program that has been read. -/
def encodeProgram (program : List ParsedLine) : Except Error (List Entry) := do
  let table ← bindLabels .initial 0 program
  let (entries, _) ← (encodeAll (instructions program)).run table
  return entries

def listing (source : String) : Except Error (List Entry) := do
  encodeProgram (← parseLines (clean source))

/-- The words of a program in binary, one a line, without a line feed at the end. -/
def binaryText (entries : List Entry) : String :=
  "\n".intercalate (entries.map fun entry => Word.binary entry.word)

def assemble (source : String) : Except Error String :=
  (listing source).map binaryText

end Hack.Assembly
