namespace Hack.Text

/-- The value of a string of digits, most significant first. -/
def digitsValue (digits : List Char) : Nat :=
  digits.foldl (fun value digit => 10 * value + (digit.toNat - '0'.toNat)) 0

/-- The value of a text that is one or more digits and nothing else. -/
def natural? (text : List Char) : Option Nat :=
  if !text.isEmpty && text.all Char.isDigit then some (digitsValue text) else none

/-- The value of a natural number that may carry a plus sign and is at most `limit`. -/
def naturalUpTo? (limit : Nat) (text : List Char) : Option Nat :=
  let digits := match text with
    | '+' :: rest => rest
    | _ => text
  (natural? digits).filter (· ≤ limit)

end Hack.Text
