namespace Hack.Text

/-- Puts a name before the first one that is not below it. -/
def insertName (name : String) : List String → List String
  | [] => [name]
  | first :: rest =>
      if name ≤ first then name :: first :: rest else first :: insertName name rest

def ascending (names : List String) : List String :=
  names.foldr insertName []

variable {name : String} {names : List String}

end Hack.Text
