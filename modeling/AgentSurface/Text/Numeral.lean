/-!
# Text — whole numbers

How a whole number of 64 bits is spelled where a setting or an index is read.
-/

namespace AgentSurface.Text

/-- The value of a decimal digit. -/
def decimalDigit (c : Char) : Nat := c.toNat - '0'.toNat

/-- The value of decimal digits. -/
def decimalValue (digits : List Char) : Nat :=
  digits.foldl (fun n c => n * 10 + decimalDigit c) 0

/-- Whole numbers of 64 bits are less than this. -/
def wordLimit : Nat := 0x10000000000000000

/-- The number of 64 bits that decimal digits spell, behind one plus sign at most. -/
def word? (s : List Char) : Option Nat :=
  let digits := if s.head? = some '+' then s.drop 1 else s
  if digits.isEmpty || !digits.all Char.isDigit then none
  else
    let n := decimalValue digits
    if n < wordLimit then some n else none

end AgentSurface.Text
