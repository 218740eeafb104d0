import AgentSurface.Calendar.Date
import AgentSurface.Json.Basic
import AgentSurface.Text.Blank
import AgentSurface.Text.Numeral

/-!
# Calendar — points of time

A point of time is a second since 1970 and a part of it in nanoseconds.  The part may reach into a
second more: that is the leap second, the 61st of its minute.

Times are written as in RFC 3339, in UTC, with as few digits of the second as tell it exactly, out
of 0, 3, 6 and 9.  What is read may have another offset and be laid out more loosely: blanks may
stand before the parts, and a number may have fewer digits.
-/

namespace AgentSurface

structure Timestamp where
  /-- Seconds since 1970-01-01T00:00:00Z. -/
  seconds : Int
  /-- Nanoseconds since that second; 10^9 and more in a leap second. -/
  nanos : Nat
deriving DecidableEq, Repr

namespace Timestamp

def dayLength : Int := 86400

def nanosPerSecond : Nat := 1000000000

/-- The order of time. -/
def before (a b : Timestamp) : Bool :=
  a.seconds < b.seconds || (a.seconds == b.seconds && a.nanos < b.nanos)

/-! ### Writing -/

/-- A number in decimal digits, with zeros before it up to a width. -/
def padded (width n : Nat) : List Char :=
  let digits := Nat.toDigits 10 n
  List.replicate (width - digits.length) '0' ++ digits

/-- A year has four digits; one outside them has its sign. -/
def yearText (year : Int) : List Char :=
  if 0 ≤ year ∧ year ≤ 9999 then padded 4 year.toNat
  else (if year < 0 then '-' else '+') :: padded 4 year.natAbs

/-- The part of a second, in thousandths, millionths or billionths. -/
def fractionText (nanos : Nat) : List Char :=
  if nanos = 0 then []
  else if nanos % 1000000 = 0 then '.' :: padded 3 (nanos / 1000000)
  else if nanos % 1000 = 0 then '.' :: padded 6 (nanos / 1000)
  else '.' :: padded 9 nanos

def toChars (t : Timestamp) : List Char :=
  let date := Calendar.Date.ofDay (t.seconds / dayLength)
  let ofDay := (t.seconds % dayLength).toNat
  let leap := if t.nanos < nanosPerSecond then 0 else 1
  yearText date.year ++ '-' :: padded 2 date.month ++ '-' :: padded 2 date.day ++
    'T' :: padded 2 (ofDay / 3600) ++ ':' :: padded 2 (ofDay / 60 % 60) ++
    ':' :: padded 2 (ofDay % 60 + leap) ++
    fractionText (t.nanos - leap * nanosPerSecond) ++ ['Z']

/-- The written form. -/
def text (t : Timestamp) : String := String.ofList t.toChars

/-! ### Reading -/

/-- One digit or more, but no more than `most`. -/
def digits? (most : Nat) (s : List Char) : Option (List Char × List Char) :=
  let digits := (s.takeWhile Char.isDigit).take most
  if digits.isEmpty then none else some (digits, s.drop digits.length)

/-- A number of at most two digits that is not above `high`, with blanks before it. -/
def part? (high : Nat) (s : List Char) : Option (Nat × List Char) := do
  let (digits, rest) ← digits? 2 (Text.trimStart s)
  let n := Text.decimalValue digits
  if n ≤ high then some (n, rest) else none

/-- A mark, with blanks before it. -/
def mark? (mark : Char) (s : List Char) : Option (List Char) :=
  match Text.trimStart s with
  | c :: rest => if c = mark then some rest else none
  | [] => none

/-- A year, with blanks before it.  Behind a sign it may have any number of digits, else it has
four at most. -/
def year? (s : List Char) : Option (Int × List Char) :=
  match Text.trimStart s with
  | '-' :: rest => (digits? rest.length rest).map fun (ds, rest) => (-(Text.decimalValue ds : Int), rest)
  | '+' :: rest => (digits? rest.length rest).map fun (ds, rest) => ((Text.decimalValue ds : Int), rest)
  | s => (digits? 4 s).map fun (ds, rest) => ((Text.decimalValue ds : Int), rest)

/-- The part of a second behind a point, in nanoseconds; digits behind the ninth are dropped. -/
def fraction? (s : List Char) : Option (Nat × List Char) :=
  match s with
  | '.' :: rest => do
    let (digits, rest) ← digits? 9 rest
    let nanos := Text.decimalValue (digits ++ List.replicate (9 - digits.length) '0')
    return (nanos, rest.dropWhile Char.isDigit)
  | _ => some (0, s)

/-- Two digits. -/
def twoDigits? (s : List Char) : Option (Nat × List Char) :=
  match s with
  | a :: b :: rest => if a.isDigit && b.isDigit then some (Text.decimalValue [a, b], rest) else none
  | _ => none

/-- Hours and minutes of an offset, in seconds.  Colons and blanks may stand between them. -/
def offsetSize? (s : List Char) : Option (Int × List Char) := do
  let (hours, s) ← twoDigits? s
  let (minutes, s) ← twoDigits? (s.dropWhile fun c => c == ':' || Text.isBlank c)
  if minutes < 60 ∧ hours < 24 then some ((hours * 3600 + minutes * 60 : Nat), s) else none

/-- The offset from UTC, in seconds. -/
def offset? (s : List Char) : Option (Int × List Char) :=
  if (s.take 3).map Char.toLower = ['u', 't', 'c'] then some (0, s.drop 3)
  else
    match s with
    | [] => none
    | c :: rest =>
      if c = 'z' ∨ c = 'Z' then some (0, rest)
      else if c = '+' then offsetSize? rest
      else if c = '-' ∨ c = '\u2212' then (offsetSize? rest).map fun (n, rest) => (-n, rest)
      else none

/-- A date. -/
def date? (s : List Char) : Option (Calendar.Date × List Char) := do
  let (year, s) ← year? s
  let s ← mark? '-' s
  let (month, s) ← part? 12 s
  let s ← mark? '-' s
  let (day, s) ← part? 31 s
  let date : Calendar.Date := ⟨year, month, day⟩
  if date.isValid then some (date, s) else none

/-- A time of day, in seconds and nanoseconds.  The 61st second counts as a part of the 60th. -/
def timeOfDay? (s : List Char) : Option (Int × Nat × List Char) := do
  let (hour, s) ← part? 23 s
  let s ← mark? ':' s
  let (minute, s) ← part? 59 s
  let s ← mark? ':' s
  let (second, s) ← part? 60 s
  let (nanos, s) ← fraction? s
  let seconds : Nat := hour * 3600 + minute * 60 + min second 59
  return (seconds, if second = 60 then nanos + nanosPerSecond else nanos, s)

/-- The date and the time of day stand a `T` or a space apart. -/
def separator? (s : List Char) : Option (List Char) :=
  match s with
  | c :: rest => if c = 'T' ∨ c = 't' ∨ c = ' ' then some rest else none
  | [] => none

/-- Read a written form.  The point of time has to have a date in UTC. -/
def ofChars? (s : List Char) : Option Timestamp := do
  let (date, s) ← date? s
  let s ← separator? s
  let (ofDay, nanos, s) ← timeOfDay? s
  let (offset, s) ← offset? (Text.trimStart s)
  let seconds := date.toDay * dayLength + ofDay - offset
  let year := (Calendar.Date.ofDay (seconds / dayLength)).year
  if s.all Text.isBlank ∧ Calendar.firstYear ≤ year ∧ year ≤ Calendar.lastYear then
    some ⟨seconds, nanos⟩
  else none

def ofText? (s : String) : Option Timestamp := ofChars? s.toList

/-! ### Wire form -/

def toJson (t : Timestamp) : Json := .string t.text

def ofJson? (v : Json) : Option Timestamp := v.string?.bind ofText?

end Timestamp
end AgentSurface
