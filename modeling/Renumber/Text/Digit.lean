/-!
# Digits

The digits of the bases up to sixteen. Letters count in either case.
-/

namespace Renumber.Text

/-- The value of a digit of a base. -/
def digit? (base : Nat) (c : Char) : Option Nat :=
  let value? : Option Nat :=
    if c.isDigit then some (c.toNat - '0'.toNat)
    else if 'a' ≤ c ∧ c ≤ 'f' then some (c.toNat - 'a'.toNat + 10)
    else if 'A' ≤ c ∧ c ≤ 'F' then some (c.toNat - 'A'.toNat + 10)
    else none
  value?.filter (· < base)

/-- A digit of a base. -/
def isDigit (base : Nat) (c : Char) : Bool :=
  (digit? base c).isSome

/-- The number that digits of a base stand for, the most significant one first. -/
def numberIn (base : Nat) (digits : List Char) : Nat :=
  digits.foldl (fun n c => n * base + (digit? base c).getD 0) 0

end Renumber.Text
