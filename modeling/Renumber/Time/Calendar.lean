/-!
# The civil calendar

Dates of the proleptic Gregorian calendar and the count of days since 1970-01-01.
Years are integers; the year before 1 is 0.
-/

namespace Renumber.Time

/-- A year, a month from 1 and a day from 1. -/
structure Date where
  year : Int
  month : Nat
  day : Nat
  deriving DecidableEq, Repr

/-- The years of the Gregorian calendar with a 29th of February. -/
def isLeapYear (year : Int) : Bool :=
  year % 4 == 0 && (year % 100 != 0 || year % 400 == 0)

/-- The length of a month; a month outside 1 to 12 has no day. -/
def daysInMonth (year : Int) (month : Nat) : Nat :=
  match month with
  | 1 | 3 | 5 | 7 | 8 | 10 | 12 => 31
  | 4 | 6 | 9 | 11 => 30
  | 2 => if isLeapYear year then 29 else 28
  | _ => 0

/-- The least year that a date may have. -/
def minYear : Int := -262143

/-- The greatest year that a date may have. -/
def maxYear : Int := 262142

/-- The day exists and its year is within bounds. -/
def Date.isValid (d : Date) : Bool :=
  minYear ≤ d.year && d.year ≤ maxYear && 1 ≤ d.day && d.day ≤ daysInMonth d.year d.month

/-- Days from 1970-01-01, counted in cycles of 400 years that begin on the first of
March, so that the leap day is the last of its year. -/
def Date.toDays (d : Date) : Int :=
  let year := if d.month ≤ 2 then d.year - 1 else d.year
  let era := year / 400
  let ofEra := year - era * 400
  let month : Int := if d.month ≤ 2 then d.month + 9 else d.month - 3
  let ofYear := (153 * month + 2) / 5 + d.day - 1
  era * 146097 + (ofEra * 365 + ofEra / 4 - ofEra / 100 + ofYear) - 719468

/-- The date a number of days after 1970-01-01. -/
def Date.ofDays (days : Int) : Date :=
  let shifted := days + 719468
  let era := shifted / 146097
  let day := shifted - era * 146097
  let ofEra := (day - day / 1460 + day / 36524 - day / 146096) / 365
  let ofYear := day - (365 * ofEra + ofEra / 4 - ofEra / 100)
  let month := (5 * ofYear + 2) / 153
  let dayOfMonth := ofYear - (153 * month + 2) / 5 + 1
  let civil := if month < 10 then month + 3 else month - 9
  let year := ofEra + era * 400
  ⟨if civil ≤ 2 then year + 1 else year, civil.toNat, dayOfMonth.toNat⟩

end Renumber.Time
