import Renumber.Text.Blank
import Renumber.Text.Digit
import Renumber.Time.Instant

/-!
# Reading times

Three notations are read. The strict one is RFC 3339: two digits each, four for the
year. The relaxed one, used inside recorded file states, lets blanks stand before
numbers and dashes and takes fewer digits. The loose one has no offset and is in
universal time. All of them check that the date exists; second 60 is a leap second.
-/

namespace Renumber.Time

open Renumber.Text (trim trimStart isBlank)

/-- A reader takes a value from the front of a text and leaves the rest. -/
abbrev Reader (α : Type) := List Char → Option (α × List Char)

/-- Between `least` and `most` digits, as many as there are. -/
def number (least most : Nat) : Reader Nat := fun s =>
  let digits := (s.take most).takeWhile Char.isDigit
  if least ≤ digits.length then some (Text.numberIn 10 digits, s.drop digits.length) else none

/-- One given character. -/
def expect (c : Char) (s : List Char) : Option (List Char) :=
  match s with
  | a :: rest => if a = c then some rest else none
  | [] => none

/-- Digits after a point, to the nanosecond; further digits are dropped. -/
def fraction : Reader Nat := fun s =>
  match s with
  | '.' :: rest => do
    let digits := (rest.take 9).takeWhile Char.isDigit
    guard (!digits.isEmpty)
    return (Text.numberIn 10 digits * Nat.pow 10 (9 - digits.length), rest.dropWhile Char.isDigit)
  | _ => some (0, s)

/-- Two digits that count hours, two that count minutes up to 59, and between them
what `gap` accepts; a sign comes first. -/
def signedOffset (gap : List Char → Option (List Char)) : Reader Int := fun s => do
  let (sign, rest) ← match s with
    | '+' :: rest => some ((1 : Int), rest)
    | '-' :: rest => some (-1, rest)
    | '−' :: rest => some (-1, rest)
    | _ => none
  let (hours, rest) ← number 2 2 rest
  let rest ← gap rest
  let (minutes, rest) ← number 2 2 rest
  guard (minutes < 60)
  return (sign * (hours * 3600 + minutes * 60 : Nat), rest)

/-- An offset or a `Z`. -/
def offset (gap : List Char → Option (List Char)) : Reader Int := fun s =>
  match s with
  | 'Z' :: rest => some (0, rest)
  | 'z' :: rest => some (0, rest)
  | _ => signedOffset gap s

/-- The separator of date and time. -/
def dateEnd (s : List Char) : Option (List Char) :=
  match s with
  | 'T' :: rest => some rest
  | 't' :: rest => some rest
  | ' ' :: rest => some rest
  | _ => none

/-- The instant at which a clock `offset` seconds east shows date and time, if the
date exists, the time is below 24:00 and the offset is below a day. -/
def instantOf? (date : Date) (hour minute second nanos : Nat) (offset : Int) : Option Instant := do
  guard (1 ≤ date.month && date.isValid)
  guard (hour ≤ 23 && minute ≤ 59 && second ≤ 60 && nanos < nanosPerSecond)
  guard (offset.natAbs < 86400)
  let leap := if second = 60 then 1 else 0
  let ofDay := hour * 3600 + minute * 60 + (second - leap)
  let t : Instant := ⟨date.toDays * 86400 + ofDay - offset, nanos + leap * nanosPerSecond⟩
  guard t.inRange
  return t

/-- RFC 3339, nothing before or after it. -/
def readStamp? (s : List Char) : Option Stamp := do
  let (year, s) ← number 4 4 s
  let s ← expect '-' s
  let (month, s) ← number 2 2 s
  let s ← expect '-' s
  let (day, s) ← number 2 2 s
  let s ← dateEnd s
  let (hour, s) ← number 2 2 s
  let s ← expect ':' s
  let (minute, s) ← number 2 2 s
  let s ← expect ':' s
  let (second, s) ← number 2 2 s
  let (nanos, s) ← fraction s
  let (offset, s) ← offset (expect ':') s
  guard s.isEmpty
  let instant ← instantOf? ⟨year, month, day⟩ hour minute second nanos offset
  return ⟨instant, offset⟩

/-- Blanks, then at most `most` digits. -/
def spaced (most : Nat) : Reader Nat := fun s =>
  number 1 most (trimStart s)

/-- Blanks, then a year: four digits at most, or a sign and any number of them. -/
def spacedYear : Reader Int := fun s =>
  match trimStart s with
  | '-' :: rest => (number 1 rest.length rest).map fun (n, rest) => (-(n : Int), rest)
  | '+' :: rest => (number 1 rest.length rest).map fun (n, rest) => ((n : Int), rest)
  | s => (number 1 4 s).map fun (n, rest) => ((n : Int), rest)

/-- The universal zone, spelled out in either case. -/
def zoneName? (s : List Char) : Option (List Char) :=
  match s with
  | a :: b :: c :: rest =>
    if a.toUpper = 'U' ∧ b.toUpper = 'T' ∧ c.toUpper = 'C' then some rest else none
  | _ => none

/-- An offset whose hours and minutes may stand apart. -/
def relaxedOffset : Reader Int := fun s =>
  match zoneName? s with
  | some rest => some (0, rest)
  | none => offset (fun s => some (s.dropWhile fun c => c == ':' || isBlank c)) s

/-- The relaxed notation. -/
def readInstant? (s : List Char) : Option Instant := do
  let (year, s) ← spacedYear s
  let s ← expect '-' (trimStart s)
  let (month, s) ← spaced 2 s
  let s ← expect '-' (trimStart s)
  let (day, s) ← spaced 2 s
  let s ← dateEnd s
  let (hour, s) ← spaced 2 s
  let s ← expect ':' (trimStart s)
  let (minute, s) ← spaced 2 s
  let s ← expect ':' (trimStart s)
  let (second, s) ← spaced 2 s
  let (nanos, s) ← fraction s
  let (offset, s) ← relaxedOffset (trimStart s)
  guard (trimStart s).isEmpty
  instantOf? ⟨year, month, day⟩ hour minute second nanos offset

/-- A date with dashes, numbers possibly short. -/
def looseDate : Reader Date := fun s => do
  let (year, s) ← spacedYear s
  let s ← expect '-' s
  let (month, s) ← spaced 2 s
  let s ← expect '-' s
  let (day, s) ← spaced 2 s
  return (⟨year, month, day⟩, s)

/-- A time to the second with colons, numbers possibly short. -/
def looseClock : Reader (Nat × Nat × Nat) := fun s => do
  let (hour, s) ← spaced 2 s
  let s ← expect ':' s
  let (minute, s) ← spaced 2 s
  let s ← expect ':' s
  let (second, s) ← spaced 2 s
  return ((hour, minute, second), s)

/-- A date alone or a date and a time, in universal time. -/
def readLoose? (s : List Char) : Option Instant := do
  let (date, s) ← looseDate s
  if s.isEmpty then instantOf? date 0 0 0 0 0
  else
    let s := match s with
      | 'T' :: rest => rest
      | _ => s
    let ((hour, minute, second), s) ← looseClock s
    guard s.isEmpty
    instantOf? date hour minute second 0 0

/-- The word for the present, in any case. -/
def isNow (s : List Char) : Bool :=
  s.map Char.toLower == ['n', 'o', 'w']

/-- The time that a text asks for, given the present: `now`, RFC 3339, or a loose
date and time. -/
def parse? (now : Instant) (s : List Char) : Option Instant :=
  let s := trim s
  if isNow s then some now
  else match readStamp? s with
    | some stamp => some stamp.instant
    | none => readLoose? s

end Renumber.Time
