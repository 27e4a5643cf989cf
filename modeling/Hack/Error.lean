namespace Hack

/-- The part of a compute instruction that a mnemonic is looked up for. -/
inductive Field where
  | comp
  | dest
  | jump
deriving DecidableEq, Repr

def Field.name : Field → String
  | .comp => "comp"
  | .dest => "dest"
  | .jump => "jump"

inductive Fault where
  | duplicateLabel (label : String)
  | addressOverflow (value : Nat)
  | invalidMnemonic (field : Field) (token : String)
  | invalidSymbol (token : String)
  | unsupportedSegment (segment : String)
  | unknownCommand (text : String)
  | invalidArgument (token : String)
  | missingArgument (text : String)
  | indexOutOfRange (segment : String) (index : Nat)
deriving DecidableEq, Repr

def Fault.message : Fault → String
  | .duplicateLabel label => s!"label `{label}` cannot be bound more than once"
  | .addressOverflow value => s!"address {value} exceeds the maximum of 32767"
  | .invalidMnemonic field token =>
      let name := field.name
      s!"`{token}` is not a valid {name} mnemonic"
  | .invalidSymbol token => s!"`{token}` is not a valid symbol"
  | .unsupportedSegment segment => s!"unsupported memory segment `{segment}`"
  | .unknownCommand text => s!"unknown command `{text}`"
  | .invalidArgument token => s!"`{token}` is not a non-negative integer"
  | .missingArgument text => s!"`{text}` is missing an argument"
  | .indexOutOfRange segment index => s!"index {index} is out of range for segment `{segment}`"

/-- Lines are counted from one. -/
inductive Place where
  | line (number : Nat)
  | inFile (file : String) (number : Nat)
deriving DecidableEq, Repr

def Place.text : Place → String
  | .line number => s!"line {number}"
  | .inFile file number => s!"{file}:{number}"

structure Error where
  place : Place
  fault : Fault
deriving DecidableEq, Repr

def Error.message (error : Error) : String :=
  error.place.text ++ ": " ++ error.fault.message

/-- The result of a rule that finds faults, with the place put to its fault. -/
def Place.blame {α : Type} (place : Place) (result : Except Fault α) : Except Error α :=
  result.mapError fun fault => ⟨place, fault⟩

end Hack
