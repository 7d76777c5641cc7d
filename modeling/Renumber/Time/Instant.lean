import Renumber.Time.Calendar

/-!
# Instants and stamps

An instant is a second of universal time and a fraction in nanoseconds; a fraction
of a whole second or more says that the instant lies in a leap second after it. A
stamp is an instant together with the offset it was written with, so its text keeps
the local clock of its author.
-/

namespace Renumber.Time

/-- A point in time: seconds since 1970-01-01T00:00:00Z and nanoseconds. -/
structure Instant where
  seconds : Int
  nanos : Nat
  deriving DecidableEq, Repr, Inhabited

/-- An instant as written by a clock some seconds east of universal time. -/
structure Stamp where
  instant : Instant
  offset : Int
  deriving DecidableEq, Repr

/-- Nanoseconds in a second. -/
def nanosPerSecond : Nat := 1000000000

/-- The first instant with a date. -/
def minSeconds : Int := (Date.mk minYear 1 1).toDays * 86400

/-- The last second with a date. -/
def maxSeconds : Int := (Date.mk maxYear 12 31).toDays * 86400 + 86399

/-- A date exists for the instant. -/
def Instant.inRange (t : Instant) : Bool :=
  minSeconds ≤ t.seconds && t.seconds ≤ maxSeconds

/-- The instant on a clock without leap seconds: the fraction carries over. -/
def Instant.carry (t : Instant) : Instant :=
  ⟨t.seconds + t.nanos / nanosPerSecond, t.nanos % nanosPerSecond⟩

/-- The instant some nanoseconds later. -/
def Instant.after (t : Instant) (nanos : Nat) : Instant :=
  Instant.carry ⟨t.seconds, t.nanos + nanos⟩

/-- Decimal digits with zeros in front up to a width. -/
def padded (width n : Nat) : String :=
  let digits := toString n
  String.ofList (List.replicate (width - digits.length) '0') ++ digits

/-- Four digits, or a sign and at least four digits outside the years 0 to 9999. -/
def yearText (year : Int) : String :=
  if 0 ≤ year ∧ year ≤ 9999 then padded 4 year.toNat
  else (if year < 0 then "-" else "+") ++ padded 4 year.natAbs

/-- The day and the second of the day, on a clock some seconds east. -/
def Instant.local (t : Instant) (offset : Int) : Date × Nat :=
  let shifted := t.seconds + offset
  (Date.ofDays (shifted / 86400), (shifted % 86400).toNat)

/-- Year, month and day with dashes. -/
def Date.text (d : Date) : String :=
  yearText d.year ++ "-" ++ padded 2 d.month ++ "-" ++ padded 2 d.day

/-- Hours, minutes and seconds with colons; a leap second is second 60. -/
def clockText (ofDay nanos : Nat) : String :=
  padded 2 (ofDay / 3600) ++ ":" ++ padded 2 (ofDay / 60 % 60) ++ ":" ++
    padded 2 (ofDay % 60 + nanos / nanosPerSecond)

/-- A fraction of three, six or nine digits, the fewest that lose nothing. -/
def fractionText (nanos : Nat) : String :=
  let n := nanos % nanosPerSecond
  if n == 0 then ""
  else if n % 1000000 == 0 then "." ++ padded 3 (n / 1000000)
  else if n % 1000 == 0 then "." ++ padded 6 (n / 1000)
  else "." ++ padded 9 n

/-- The offset in hours and minutes. -/
def offsetText (offset : Int) : String :=
  let minutes := (offset.natAbs + 30) / 60
  (if offset < 0 then "-" else "+") ++ padded 2 (minutes / 60) ++ ":" ++ padded 2 (minutes % 60)

private def dateTimeText (t : Instant) (offset : Int) (separator : String) : String :=
  let (date, ofDay) := t.local offset
  date.text ++ separator ++ clockText ofDay t.nanos

/-- The stamp as RFC 3339 writes it, with a numeric offset. -/
def Stamp.text (s : Stamp) : String :=
  dateTimeText s.instant s.offset "T" ++ fractionText s.instant.nanos ++ offsetText s.offset

/-- Universal time as RFC 3339 writes it, with a `Z`. -/
def Instant.zuluText (t : Instant) : String :=
  dateTimeText t 0 "T" ++ fractionText t.nanos ++ "Z"

/-- The stamp of an instant on the universal clock. -/
def Instant.stamp (t : Instant) : Stamp :=
  ⟨t, 0⟩

/-- Date and time to the second, in universal time. -/
def Instant.shortText (t : Instant) : String :=
  dateTimeText t 0 " "

/-- Date and time to the second, on the stamp's own clock. -/
def Stamp.shortText (s : Stamp) : String :=
  dateTimeText s.instant s.offset " "

end Renumber.Time
