import Renumber.Text.Case.Table

/-!
# Lower case

The full lower-case form of a text: every letter by the simple mapping, the dotted
capital I as two characters, and a capital sigma as the final form at the end of a
word. Only the sigma depends on what stands around it.
-/

namespace Renumber.Text

namespace Case

/-- Membership in a table of closed ranges. -/
def inRanges (table : List (Nat × Nat)) (n : Nat) : Bool :=
  table.any fun (low, high) => low ≤ n && n ≤ high

/-- A letter that has case. -/
def isCased (c : Char) : Bool :=
  inRanges casedRanges c.toNat

/-- A character that is passed over when looking for a cased letter. -/
def isIgnorable (c : Char) : Bool :=
  inRanges ignorableRanges c.toNat

/-- The simple lower-case mapping; a character outside all runs stands for itself. -/
def lowerChar (c : Char) : Char :=
  let n := c.toNat
  if n < 0x80 then c.toLower
  else match lowerRuns.find? fun (low, high, step, _) =>
      low ≤ n && n ≤ high && (n - low) % step == 0 with
    | some (_, _, _, distance) => Char.ofNat (Int.toNat (n + distance))
    | none => c

/-- The first character that is not passed over is a cased letter. -/
def nextIsCased (s : List Char) : Bool :=
  match s.dropWhile isIgnorable with
  | c :: _ => isCased c
  | [] => false

/-- Lower case of the rest of a text, `before` being what was read, in reverse. -/
def lowerFrom (before : List Char) : List Char → List Char
  | [] => []
  | c :: rest =>
    if c = 'Σ' then
      (if nextIsCased before && !nextIsCased rest then 'ς' else 'σ') ::
        lowerFrom (c :: before) rest
    else if c = 'İ' then 'i' :: '\u0307' :: lowerFrom (c :: before) rest
    else lowerChar c :: lowerFrom (c :: before) rest

end Case

/-- The lower-case form of a text. -/
def lower (s : List Char) : List Char :=
  Case.lowerFrom [] s

end Renumber.Text
