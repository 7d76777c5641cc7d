import Renumber.Text.Case
import Renumber.Text.Width.Table

/-!
# Display widths

How many columns of a terminal a text takes. Marks and joiners take none, East Asian
wide characters take two, all others one, control characters included. A picture counts
once with everything joined to it: a selector, a skin tone, or further pictures.
-/

namespace Renumber.Text

namespace Width

open Case (inRanges)

/-- The columns of a character by itself. -/
def columns (c : Char) : Nat :=
  let n := c.toNat
  if n < 0x300 then (if n = 0xAD then 0 else 1)
  else if n = 0x17D8 then 3
  else if inRanges zeroRanges n then 0
  else if inRanges wideRanges n then 2
  else 1

/-- What came before a character, as far as it decides its columns. -/
inductive Before where
  /-- Nothing that joins. -/
  | plain
  /-- An emoji drawn as text, in one column. -/
  | textEmoji
  /-- A picture. -/
  | picture
  /-- A joiner behind a picture. -/
  | joiner
  /-- An emoji drawn as text behind such a joiner, not counted yet. -/
  | joinedText
  deriving DecidableEq

/-- The columns of a character that does not join what came before. -/
def fresh (c : Char) : Nat × Before :=
  let n := c.toNat
  if inRanges pictureRanges n then (2, .picture)
  else if inRanges textEmojiRanges n then (columns c, .textEmoji)
  else (columns c, .plain)

/-- The selector that asks for a picture. -/
def selector : Char := '\uFE0F'

/-- The joiner of pictures. -/
def zeroWidthJoiner : Char := '\u200D'

/-- A skin tone. -/
def isTone (c : Char) : Bool :=
  0x1F3FB ≤ c.toNat && c.toNat ≤ 0x1F3FF

/-- The columns that a character adds, and what the next one has before it. -/
def step (before : Before) (c : Char) : Nat × Before :=
  match before with
  | .plain => fresh c
  | .textEmoji =>
    if c = selector then (1, .picture)
    else if isTone c then (1, .picture)
    else fresh c
  | .picture =>
    if c = selector ∨ isTone c then (0, .picture)
    else if c = zeroWidthJoiner then (0, .joiner)
    else fresh c
  | .joiner =>
    match fresh c with
    | (_, .picture) => (0, .picture)
    | (_, .textEmoji) => (0, .joinedText)
    | other => other
  | .joinedText =>
    if c = selector then (0, .picture)
    else
      let (n, next) := fresh c
      (n + 1, next)

/-- The columns of the rest of a text. -/
def widthFrom (before : Before) : List Char → Nat
  | [] => if before = .joinedText then 1 else 0
  | c :: rest =>
    let (n, next) := step before c
    n + widthFrom next rest

end Width

/-- The columns that a text takes. -/
def width (s : List Char) : Nat :=
  Width.widthFrom .plain s

end Renumber.Text
