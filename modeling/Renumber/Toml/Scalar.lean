import Renumber.Text.Digit
import Renumber.Text.Split
import Renumber.Time.Reader
import Renumber.Toml.Basic

/-!
# Bare values of TOML

Numbers, truth values, dates and times. Integers are decimal with a sign, or
hexadecimal, octal or binary without one; underscores may stand between digits, and a
decimal number does not begin with a superfluous zero. Integers that need more than 128
bits are refused.
-/

namespace Renumber.Toml

open Renumber.Time (Date Reader number expect dateEnd)

/-- Digits with single underscores between them, as digits alone. -/
def ungrouped? (isDigit : Char → Bool) (s : List Char) : Option (List Char) :=
  let groups := Text.splitOn '_' s
  if groups.all (fun g => !g.isEmpty && g.all isDigit) then some groups.flatten else none

/-- A number with its base in front. -/
def basedInteger? (s : List Char) : Option Int :=
  let read := fun base digits =>
    (ungrouped? (Text.isDigit base) digits).map fun digits => (Text.numberIn base digits : Int)
  match s with
  | '0' :: 'x' :: rest => read 16 rest
  | '0' :: 'o' :: rest => read 8 rest
  | '0' :: 'b' :: rest => read 2 rest
  | _ => none

/-- A sign at the front, and whether it is a minus. -/
def splitSign (s : List Char) : Bool × List Char :=
  match s with
  | '-' :: rest => (true, rest)
  | '+' :: rest => (false, rest)
  | _ => (false, s)

/-- Decimal digits without a superfluous zero in front. -/
def decimalDigits? (s : List Char) : Option (List Char) := do
  let digits ← ungrouped? Char.isDigit s
  if digits.head? = some '0' ∧ 1 < digits.length then none else some digits

/-- A decimal number, possibly with a sign. -/
def decimalInteger? (s : List Char) : Option Int := do
  let (negative, body) := splitSign s
  let n := Text.numberIn 10 (← decimalDigits? body)
  return if negative then -(n : Int) else n

/-- An integer of at most 128 bits. -/
def integer? (s : List Char) : Option Int :=
  (basedInteger? s <|> decimalInteger? s).filter fun n =>
    -(Nat.pow 2 127 : Nat) ≤ n ∧ n < (Nat.pow 2 128 : Nat)

/-- Digits behind an exponent mark, possibly with a sign. -/
def isExponent (s : List Char) : Bool :=
  (ungrouped? Char.isDigit (splitSign s).2).isSome

/-- A decimal number with a point, an exponent or both, or one of the special values. -/
def isFloat (s : List Char) : Bool :=
  let body := (splitSign s).2
  let whole := body.takeWhile fun c => c.isDigit || c == '_'
  let rest := body.drop whole.length
  body == ['i', 'n', 'f'] || body == ['n', 'a', 'n'] ||
    ((decimalDigits? whole).isSome &&
      match rest with
      | '.' :: rest =>
        let places := rest.takeWhile fun c => c.isDigit || c == '_'
        (ungrouped? Char.isDigit places).isSome &&
          match rest.drop places.length with
          | [] => true
          | c :: exponent => (c == 'e' || c == 'E') && isExponent exponent
      | c :: exponent => (c == 'e' || c == 'E') && isExponent exponent
      | [] => false)

/-- A date that exists. -/
def date : Reader Unit := fun s => do
  let (year, s) ← number 4 4 s
  let s ← expect '-' s
  let (month, s) ← number 2 2 s
  let s ← expect '-' s
  let (day, s) ← number 2 2 s
  guard (1 ≤ month && (Date.mk year month day).isValid)
  return ((), s)

/-- A time of day; seconds and a fraction of them may be missing. -/
def clock : Reader Unit := fun s => do
  let (hour, s) ← number 2 2 s
  let s ← expect ':' s
  let (minute, s) ← number 2 2 s
  guard (hour ≤ 23 && minute ≤ 59)
  match s with
  | ':' :: s =>
    let (second, s) ← number 2 2 s
    guard (second ≤ 60)
    let (_, s) ← Time.fraction s
    return ((), s)
  | _ => return ((), s)

/-- An offset from universal time, or nothing. -/
def zone : Reader Unit := fun s =>
  match s with
  | [] => some ((), [])
  | 'Z' :: rest => some ((), rest)
  | 'z' :: rest => some ((), rest)
  | c :: rest => do
    guard (c == '+' || c == '-')
    let (hour, s) ← number 2 2 rest
    let s ← expect ':' s
    let (minute, s) ← number 2 2 s
    guard (hour ≤ 23 && minute ≤ 59)
    return ((), s)

/-- A date, a time, or both with or without an offset. -/
def isTime (s : List Char) : Bool :=
  match date s with
  | some ((), []) => true
  | some ((), rest) =>
    match (dateEnd rest).bind clock with
    | some ((), rest) => (zone rest).any fun ((), rest) => rest.isEmpty
    | none => false
  | none => (clock s).any fun ((), rest) => rest.isEmpty

/-- A character of a bare value. -/
def isBare (c : Char) : Bool :=
  c.isAlphanum || c == '_' || c == '-' || c == '+' || c == '.' || c == ':'

/-- The characters of a bare value, and what follows. A blank between a date and a time
belongs to the value. -/
def bareSpan (s : List Char) : List Char × List Char :=
  let first := s.takeWhile isBare
  let rest := s.drop first.length
  match date first, rest with
  | some ((), []), ' ' :: c :: more =>
    if c.isDigit then
      let second := (c :: more).takeWhile isBare
      (first ++ ' ' :: second, (c :: more).drop second.length)
    else (first, rest)
  | _, _ => (first, rest)

/-- The value of a bare word. -/
def scalar? (s : List Char) : Option Toml :=
  if s = ['t', 'r', 'u', 'e'] then some (.bool true)
  else if s = ['f', 'a', 'l', 's', 'e'] then some (.bool false)
  else match integer? s with
    | some n => some (.integer n)
    | none =>
      if isFloat s then some (.float (String.ofList s))
      else if isTime s then some (.time (String.ofList s))
      else none

end Renumber.Toml
