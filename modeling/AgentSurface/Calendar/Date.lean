/-!
# Calendar — dates

A date of the Gregorian calendar, carried on without limit into the past and the future.  Days are
counted from the first of January 1970.

The count goes by years that begin in March, so that the day a leap year has more is the last one of
its year, and by eras of 400 such years, which all have the same length.
-/

namespace AgentSurface.Calendar

structure Date where
  year : Int
  month : Nat
  day : Nat
deriving DecidableEq, Repr

def isLeapYear (year : Int) : Bool :=
  year % 4 == 0 && (year % 100 != 0 || year % 400 == 0)

/-- The number of days of a month. -/
def monthLength (year : Int) (month : Nat) : Nat :=
  if month = 2 then if isLeapYear year then 29 else 28
  else if month = 4 ∨ month = 6 ∨ month = 9 ∨ month = 11 then 30
  else 31

/-- The years that can be told: every point of time has a date in one of them. -/
def firstYear : Int := -262143

def lastYear : Int := 262142

/-- The date exists. -/
def Date.isValid (d : Date) : Bool :=
  firstYear ≤ d.year && d.year ≤ lastYear && 1 ≤ d.month && d.month ≤ 12 && 1 ≤ d.day &&
    d.day ≤ monthLength d.year d.month

/-- The days of an era. -/
def eraLength : Int := 146097

/-- The day 1970-01-01, counted from the first of March of the year 0. -/
def epoch : Int := 719468

/-- The days of a year from March on that stand before a month; March is month 0. -/
def daysBefore (month : Int) : Int := (153 * month + 2) / 5

/-- The days from 1970-01-01 to a date. -/
def Date.toDay (d : Date) : Int :=
  let year := if d.month ≤ 2 then d.year - 1 else d.year
  let inEra := year % 400
  let month := ((d.month : Int) + 9) % 12
  let inYear := daysBefore month + d.day - 1
  year / 400 * eraLength + (inEra * 365 + inEra / 4 - inEra / 100 + inYear) - epoch

/-- The date so many days after 1970-01-01. -/
def Date.ofDay (day : Int) : Date :=
  let count := day + epoch
  let era := count / eraLength
  let inEra := count % eraLength
  let year := (inEra - inEra / 1460 + inEra / 36524 - inEra / 146096) / 365
  let inYear := inEra - (year * 365 + year / 4 - year / 100)
  let month := (5 * inYear + 2) / 153
  { year := era * 400 + year + (if month < 10 then 0 else 1)
    month := (if month < 10 then month + 3 else month - 9).toNat
    day := (inYear - daysBefore month + 1).toNat }

end AgentSurface.Calendar
