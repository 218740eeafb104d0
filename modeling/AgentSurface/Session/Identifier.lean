import AgentSurface.Text.Blank

/-!
# Session — fresh identifiers

A fresh identifier is a random UUID, version 4: 16 random bytes, of which six bits are set to tell
the version and the variant, in groups of hexadecimal digits.
-/

namespace AgentSurface.Session.Identifier

/-- The lowest digit of a number. -/
def digitChar (n : Nat) : Char := Nat.digitChar (n % 16)

/-- The digits of bytes. -/
def hexText (bytes : List UInt8) : List Char :=
  bytes.flatMap fun b => [digitChar (b.toNat / 16), digitChar b.toNat]

/-- The identifier of 16 random bytes: the 13th digit tells the version, and the two highest bits of
the 17th the variant. -/
def ofBytes (bytes : List UInt8) : String :=
  let variant := (bytes[8]?.getD 0).toNat / 16 % 4 + 8
  let digits := ((hexText bytes).set 12 '4').set 16 (digitChar variant)
  let group (start size : Nat) : List Char := (digits.drop start).take size
  String.ofList (group 0 8 ++ '-' :: group 8 4 ++ '-' :: group 12 4 ++ '-' :: group 16 4 ++
    '-' :: group 20 12)

/-- A digit in the place `i` of the text of a random UUID. -/
def fits (i : Nat) (c : Char) : Bool :=
  if i = 8 ∨ i = 13 ∨ i = 18 ∨ i = 23 then c == '-'
  else if i = 14 then c == '4'
  else if i = 19 then c == '8' || c == '9' || c == 'a' || c == 'b'
  else (Text.hexDigit? c).isSome && !c.isUpper

/-- The text of a random UUID. -/
def isRandom (id : String) : Bool :=
  let chars := id.toList
  chars.length == 36 && (chars.zipIdx.all fun (c, i) => fits i c)

end AgentSurface.Session.Identifier
