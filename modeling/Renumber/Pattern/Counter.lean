import Renumber.Text.Digit

/-!
# Counters in names

How a counter is written into a name and which beginnings of a text it can be read
from. Counters are numbers of 32 bits. Writing pads with zeros or blanks up to a
width; reading takes the longest run of digits first, since what follows may be digits
too.
-/

namespace Renumber.Pattern

/-- The greatest counter. -/
def maxCounter : Nat := 4294967295

/-- The number base of a counter, and for base sixteen the case of its letters. -/
inductive Radix where
  | decimal
  | octal
  | lowerHex
  | upperHex
  deriving DecidableEq, Repr

namespace Radix

/-- The base as a number. -/
def base : Radix → Nat
  | decimal => 10
  | octal => 8
  | lowerHex => 16
  | upperHex => 16

/-- The digits of a number, most significant first. -/
def digits (r : Radix) (n : Nat) : List Char :=
  match r with
  | upperHex => (Nat.toDigits 16 n).map Char.toUpper
  | r => Nat.toDigits r.base n

/-- A digit of the base. -/
def isDigit (r : Radix) (c : Char) : Bool :=
  Text.isDigit r.base c

/-- The number written by digits. -/
def value (r : Radix) (digits : List Char) : Nat :=
  Text.numberIn r.base digits

end Radix

/-- How a counter is written. -/
structure CounterStyle where
  width : Nat
  zeroPad : Bool
  leftJustify : Bool
  radix : Radix
  deriving DecidableEq, Repr

namespace CounterStyle

/-- The style of a run of hash signs: decimal, with zeros up to one digit per sign. -/
def hashes (width : Nat) : CounterStyle :=
  ⟨width, true, false, .decimal⟩

/-- Write a counter. -/
def render (style : CounterStyle) (n : Nat) : List Char :=
  let digits := style.radix.digits n
  let pad := style.width - digits.length
  if style.leftJustify then digits ++ List.replicate pad ' '
  else if style.zeroPad then List.replicate pad '0' ++ digits
  else List.replicate pad ' ' ++ digits

/-- The blanks that may stand in front of the digits. -/
def leadingBlanks (style : CounterStyle) (s : List Char) : Nat :=
  if style.zeroPad || style.leftJustify then 0 else (s.takeWhile (· == ' ')).length

/-- The blanks that belong to the counter behind its digits. -/
def trailingBlanks (style : CounterStyle) (s : List Char) : Nat :=
  if style.leftJustify then (s.takeWhile (· == ' ')).length else 0

/-- Every way to read a counter from the front of a text, longest run of digits first:
its value and how many characters it takes. Runs beyond the greatest counter are left
out. -/
def readings (style : CounterStyle) (s : List Char) : List (Nat × Nat) :=
  let blanks := style.leadingBlanks s
  let body := s.drop blanks
  let run := (body.takeWhile style.radix.isDigit).length
  (List.range run).reverse.filterMap fun i =>
    let value := style.radix.value (body.take (i + 1))
    if value ≤ maxCounter then
      some (value, blanks + (i + 1) + style.trailingBlanks (body.drop (i + 1)))
    else none

end CounterStyle

end Renumber.Pattern
