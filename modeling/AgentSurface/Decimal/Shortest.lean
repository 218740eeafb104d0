/-!
# Decimal — the shortest digits of a binary number

A double is a dyadic number `m · 2 ^ q`.  The reals that round to it form an interval around it,
with its ends when `m` is even.  `shortest` looks at the decimal grids with one, two, … significant
digits and takes the first grid that has a point in the interval; of two such points it takes the
nearer one, and of two equally near the even one.  Seventeen digits always suffice.
-/

namespace AgentSurface.Decimal

/-- A positive double `m · 2 ^ q`.  The gap below it is half the gap above when `narrow` holds. -/
structure Dyadic where
  m : Nat
  q : Int
  narrow : Bool
deriving DecidableEq

/-- The bit that the significand of a double has, but for the smallest doubles, and that is not
stored with the 52 others. -/
def hiddenBit : Nat := 0x10000000000000

/-- The double with these bits, its sign left out. -/
def Dyadic.ofBits (bits : UInt64) : Dyadic :=
  let field := bits.toNat / hiddenBit % 2048
  let fraction := bits.toNat % hiddenBit
  if field = 0 then ⟨fraction, -1074, false⟩
  else ⟨fraction + hiddenBit, (field : Int) - 1075, fraction = 0 && 1 < field⟩

/-- The highest bit of a double is its sign. -/
def isNegative (bits : UInt64) : Bool := 0x8000000000000000 ≤ bits.toNat

/-- A decimal number `digits · 10 ^ exponent`. -/
structure Digits where
  digits : Nat
  exponent : Int
deriving DecidableEq

/-- The factors `(a, b)` that carry a multiple of `2 ^ (q - 2)` to the grid of step `10 ^ k`: the
number `u · 2 ^ (q - 2)` is `u · a / b` steps. -/
def gridFactors (q k : Int) : Nat × Nat :=
  (Nat.pow 2 (q - 2).toNat * Nat.pow 10 (-k).toNat,
    Nat.pow 2 (2 - q).toNat * Nat.pow 10 k.toNat)

/-- The point of the grid of step `10 ^ k` that rounds to `x` and is nearest to it. -/
def onGrid? (x : Dyadic) (k : Int) : Option Nat :=
  let (a, b) := gridFactors x.q k
  let value := 4 * x.m * a
  let low := (if x.narrow then 4 * x.m - 1 else 4 * x.m - 2) * a
  let high := (4 * x.m + 2) * a
  let inside (n : Nat) : Bool :=
    if x.m % 2 = 0 then low ≤ n * b && n * b ≤ high else low < n * b && n * b < high
  let below := value / b
  let above := below + 1
  let gapBelow := value - below * b
  let gapAbove := above * b - value
  match inside below && 0 < below, inside above with
  | true, true =>
    if gapBelow < gapAbove then some below
    else if gapAbove < gapBelow then some above
    else if below % 2 = 0 then some below else some above
  | true, false => some below
  | false, true => some above
  | false, false => none

/-- The number is at least `10 ^ k`. -/
def Dyadic.reaches (x : Dyadic) (k : Int) : Bool :=
  let (a, b) := gridFactors x.q k
  b ≤ 4 * x.m * a

/-- The exponent of the leading decimal digit. -/
def Dyadic.magnitude (x : Dyadic) : Int :=
  let guess := ((x.m.log2 : Int) + x.q) * 30103 / 100000
  if x.reaches (guess + 1) then guess + 1 else if x.reaches guess then guess else guess - 1

/-- Leave out the zeros at the end of the digits; `fuel` bounds how many. -/
def Digits.strip (d : Digits) : Nat → Digits
  | 0 => d
  | fuel + 1 =>
    if d.digits % 10 = 0 ∧ d.digits ≠ 0 then
      Digits.strip ⟨d.digits / 10, d.exponent + 1⟩ fuel
    else d

/-- The shortest decimal number that rounds to `x`. -/
def shortest (x : Dyadic) : Digits :=
  let top := x.magnitude
  let found := (List.range 17).findSome? fun (n : Nat) =>
    (onGrid? x (top - n)).map fun digits => (⟨digits, top - n⟩ : Digits)
  (found.getD ⟨x.m, x.q⟩).strip 20

end AgentSurface.Decimal
