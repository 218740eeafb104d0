import AgentSurface.Json.Fault
import AgentSurface.Text.Numeral

/-!
# Json — numbers

A number is a whole number of 64 bits or a finite double.  A `Numeral` is the spelling of a number
while it is being read, digit by digit, and `Numeral.value?` says which number it spells:

* without fraction and exponent, and within 64 bits, the whole number (`-0` is the double);
* otherwise the double `significand · 10 ^ exponent`, where the significand takes as many digits as
  64 bits hold, and the power of ten is applied by one multiplication or division.
-/

namespace AgentSurface.Json

/-- A whole number of 64 bits: signed below zero, unsigned above. -/
structure Whole where
  val : Int
  lower : -9223372036854775808 ≤ val := by omega
  upper : val ≤ 18446744073709551615 := by omega
deriving DecidableEq

inductive Number where
  | whole (n : Whole)
  | real (x : Float) (finite : x.isFinite = true)

namespace Number

/-- The double as a number, if it is finite. -/
def ofFloat? (x : Float) : Option Number :=
  if h : x.isFinite = true then some (.real x h) else none

/-- The whole number, if 64 bits hold it. -/
def ofInt? (n : Int) : Option Number :=
  if h : -9223372036854775808 ≤ n ∧ n ≤ 18446744073709551615 then some (.whole ⟨n, h.1, h.2⟩)
  else none

/-- The nearest double. -/
def toFloat : Number → Float
  | .whole n => Float.ofInt n.val
  | .real x _ => x

/-- The whole number, if it is one by type and not only by value. -/
def toInt? : Number → Option Int
  | .whole n => some n.val
  | .real _ _ => none

/-- The same value as a double. -/
def widen (n : Number) : Number := (ofFloat? n.toFloat).getD n

instance : BEq Number where
  beq
    | .whole a, .whole b => a == b
    | .real a _, .real b _ => a == b
    | _, _ => false

end Number

/-! ### Numerals -/

/-- The part of a numeral that was read last. -/
inductive Part where
  | sign
  | zero
  | whole
  | point
  | fraction
  | mark
  | exponentSign
  | exponent
deriving DecidableEq, Repr

/-- A numeral read up to `part`; the lists hold its digits, latest first. -/
structure Numeral where
  part : Part
  negative : Bool := false
  whole : List Nat := []
  fraction : List Nat := []
  exponentNegative : Bool := false
  exponent : List Nat := []
deriving DecidableEq, Repr

/-- The value of a decimal digit. -/
def digit? (c : Char) : Option Nat :=
  if '0' ≤ c ∧ c ≤ '9' then some (c.toNat - '0'.toNat) else none

/-- The number that digits spell, latest first. -/
def ofDigits : List Nat → Nat
  | [] => 0
  | d :: ds => ofDigits ds * 10 + d

/-- Append digits to a significand while it fits in 64 bits; gives also how many were left out. -/
def absorb (n : Nat) : List Nat → Nat × Nat
  | [] => (n, 0)
  | d :: ds => if n * 10 + d < Text.wordLimit then absorb (n * 10 + d) ds else (n, ds.length + 1)

/-- The double `10 ^ e`, rounded once. -/
def tenTo (e : Nat) : Float := Float.ofScientific 1 false e

/-- Divide by `10 ^ e`, in steps that doubles can hold. -/
def scaleDown (x : Float) (e : Nat) : Float :=
  if e ≤ 308 then x / tenTo e
  else if x == 0 then x
  else scaleDown (x / tenTo 308) (e - 308)
termination_by e

/-- Multiply by `10 ^ e`; a double that is not zero has no room for more than `10 ^ 308`. -/
def scaleUp? (x : Float) (e : Nat) : Option Float :=
  if e ≤ 308 then
    let y := x * tenTo e
    if y.isInf then none else some y
  else if x == 0 then some x
  else none

namespace Numeral

/-- The numeral that begins with this character. -/
def start? (c : Char) : Option Numeral :=
  if c = '-' then some { part := .sign, negative := true }
  else
    match digit? c with
    | some 0 => some { part := .zero, whole := [0] }
    | some d => some { part := .whole, whole := [d] }
    | none => none

/-- The numeral may end here. -/
def complete (n : Numeral) : Bool :=
  match n.part with
  | .zero | .whole | .fraction | .exponent => true
  | .sign | .point | .mark | .exponentSign => false

/-- Significand and exponent of ten, the digits of the fraction counted in. -/
def parts (n : Numeral) : Nat × Int :=
  let (s, left) := absorb 0 n.whole.reverse
  let (s', left') := absorb s n.fraction.reverse
  let stated : Int := if n.exponentNegative then -(ofDigits n.exponent) else ofDigits n.exponent
  (s', (left : Int) - ((n.fraction.length - left' : Nat) : Int) + stated)

/-- The double that the numeral spells; `none` when it is too large. -/
def real? (n : Numeral) : Option Number :=
  let (s, e) := n.parts
  let size : Option Float :=
    if 0 ≤ e then scaleUp? (Float.ofNat s) e.toNat else some (scaleDown (Float.ofNat s) (-e).toNat)
  size.bind fun x => Number.ofFloat? (if n.negative then -x else x)

/-- The number that the numeral spells; `none` when it is too large. -/
def value? (n : Numeral) : Option Number :=
  if n.fraction.isEmpty && n.exponent.isEmpty then
    let size := ofDigits n.whole
    if n.negative && size == 0 then n.real?
    else
      match Number.ofInt? (if n.negative then -(size : Int) else size) with
      | some whole => some whole
      | none => n.real?
  else n.real?

/-- The exponent can not be reached by any double, whatever digits follow. -/
def hopeless (n : Numeral) : Bool :=
  !n.exponentNegative && n.parts.1 != 0 && 2147483647 < ofDigits n.exponent

/-- What the next character does to a numeral. -/
inductive Next where
  | more (n : Numeral)
  /-- The character does not belong to the numeral, which is complete. -/
  | ended
  | refused (cause : Cause)

/-- A digit of the exponent. -/
def addExponent (n : Numeral) (d : Nat) : Next :=
  let n' := { n with part := .exponent, exponent := d :: n.exponent }
  if n'.hopeless then .refused .numberOutOfRange else .more n'

/-- Behind a complete part without exponent: `e` or `E` may follow. -/
def endOrMark (n : Numeral) (c : Char) : Next :=
  if c = 'e' ∨ c = 'E' then .more { n with part := .mark } else .ended

/-- Behind the whole part: a point or a mark may follow. -/
def endOrPoint (n : Numeral) (c : Char) : Next :=
  if c = '.' then .more { n with part := .point } else n.endOrMark c

/-- Take the next character. -/
def step (n : Numeral) (c : Char) : Next :=
  match n.part, digit? c with
  | .sign, some 0 => .more { n with part := .zero, whole := [0] }
  | .sign, some d => .more { n with part := .whole, whole := [d] }
  | .sign, none => .refused .invalidNumber
  | .zero, some _ => .refused .invalidNumber
  | .zero, none => n.endOrPoint c
  | .whole, some d => .more { n with whole := d :: n.whole }
  | .whole, none => n.endOrPoint c
  | .point, some d => .more { n with part := .fraction, fraction := [d] }
  | .point, none => .refused .invalidNumber
  | .fraction, some d => .more { n with fraction := d :: n.fraction }
  | .fraction, none => n.endOrMark c
  | .mark, some d => n.addExponent d
  | .mark, none =>
    if c = '+' then .more { n with part := .exponentSign }
    else if c = '-' then .more { n with part := .exponentSign, exponentNegative := true }
    else .refused .invalidNumber
  | .exponentSign, some d => n.addExponent d
  | .exponentSign, none => .refused .invalidNumber
  | .exponent, some d => n.addExponent d
  | .exponent, none => .ended

/-- The number spelled by a numeral and the rest of its characters, all of which must belong to
it. -/
def finish? (n : Numeral) : List Char → Option Number
  | [] => if n.complete then n.value? else none
  | c :: rest =>
    match n.step c with
    | .more n' => n'.finish? rest
    | _ => none

end Numeral

/-- The number that a whole text spells. -/
def Number.ofText? : List Char → Option Number
  | [] => none
  | c :: rest => (Numeral.start? c).bind fun n => n.finish? rest

end AgentSurface.Json
