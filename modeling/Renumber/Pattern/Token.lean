import Renumber.Pattern.Counter

/-!
# The pattern grammar

A pattern is cut into pieces: runs of hash signs, counters in the notation of `%d`,
the wildcards `*` and `?`, and plain characters. Only the first counter of a pattern
counts; the characters of any further one stand for themselves. Every token remembers
the stretch of the pattern that it was made from.
-/

namespace Renumber.Pattern

/-- What a token of a pattern does. -/
inductive Token where
  | literal (c : Char)
  | counter (style : CounterStyle)
  /-- The rest of the source, `*`. -/
  | anyRest
  /-- One character of the source, `?`. -/
  | anyOne
  deriving DecidableEq, Repr

/-- A token, the place in the pattern where it starts, and its stretch of the pattern. -/
structure Placed where
  offset : Nat
  span : List Char
  token : Token
  deriving DecidableEq, Repr

/-- A counter token. -/
def Token.isCounter : Token → Bool
  | counter _ => true
  | _ => false

/-- A wildcard token. -/
def Token.isWildcard : Token → Bool
  | anyRest => true
  | anyOne => true
  | _ => false

/-- The greatest width that a percent counter may ask for. -/
def maxWidth : Nat := 64

/-- The base named by the letter at the end of a percent counter. -/
def radix? (c : Char) : Option Radix :=
  match c with
  | 'd' => some .decimal
  | 'i' => some .decimal
  | 'u' => some .decimal
  | 'o' => some .octal
  | 'x' => some .lowerHex
  | 'X' => some .upperHex
  | _ => none

/-- A sign that may stand before the width. -/
def isFlag (c : Char) : Bool :=
  c == '-' || c == '0'

/-- The style of a percent counter, given what follows the percent sign, and how many
characters it takes: flags, a width of at most `maxWidth` or none, and a letter. -/
def percent? (s : List Char) : Option (CounterStyle × Nat) :=
  let flags := s.takeWhile isFlag
  let rest := s.drop flags.length
  let digits := rest.takeWhile Char.isDigit
  let width := Radix.decimal.value digits
  if width ≤ maxWidth then
    match rest.drop digits.length with
    | [] => none
    | c :: _ => (radix? c).map fun radix =>
      (⟨width, flags.contains '0' && !flags.contains '-', flags.contains '-', radix⟩,
        flags.length + digits.length + 1)
  else none

/-- A stretch of a pattern. -/
inductive Piece where
  | plain (c : Char)
  | star
  | mark
  | counter (span : List Char) (style : CounterStyle)
  deriving DecidableEq, Repr

/-- The stretch of the pattern that a piece was cut from. -/
def Piece.span : Piece → List Char
  | plain c => [c]
  | star => ['*']
  | mark => ['?']
  | counter span _ => span

private theorem length_dropWhile_le (p : Char → Bool) (s : List Char) :
    (s.dropWhile p).length ≤ s.length :=
  (List.dropWhile_suffix p).length_le

/-- Cut a pattern into pieces. A run of hash signs is taken whole; a percent sign that
begins no counter is plain. -/
def pieces (s : List Char) : List Piece :=
  match s with
  | [] => []
  | c :: rest =>
    if c = '#' then
      let run := rest.takeWhile (· == '#')
      .counter (c :: run) (.hashes (run.length + 1)) :: pieces (rest.dropWhile (· == '#'))
    else if c = '*' then .star :: pieces rest
    else if c = '?' then .mark :: pieces rest
    else if c = '%' then
      match percent? rest with
      | some (style, used) => .counter (c :: rest.take used) style :: pieces (rest.drop used)
      | none => .plain c :: pieces rest
    else .plain c :: pieces rest
termination_by s.length
decreasing_by
  all_goals simp only [List.length_cons, List.length_drop]
  all_goals first
    | omega
    | exact Nat.lt_succ_of_le (length_dropWhile_le _ _)

/-- Characters that stand for themselves, from a place on. -/
def literals (offset : Nat) : List Char → List Placed
  | [] => []
  | c :: rest => ⟨offset, [c], .literal c⟩ :: literals (offset + 1) rest

/-- The tokens of pieces from a place on; `taken` tells that a counter came before. -/
def place (taken : Bool) (offset : Nat) : List Piece → List Placed
  | [] => []
  | p :: rest =>
    let next := offset + p.span.length
    match p with
    | .plain c => ⟨offset, [c], .literal c⟩ :: place taken next rest
    | .star => ⟨offset, ['*'], .anyRest⟩ :: place taken next rest
    | .mark => ⟨offset, ['?'], .anyOne⟩ :: place taken next rest
    | .counter span style =>
      if taken then literals offset span ++ place true next rest
      else ⟨offset, span, .counter style⟩ :: place true next rest

/-- The tokens of a pattern. -/
def tokenize (taken : Bool) (pattern : List Char) : List Placed :=
  place taken 0 (pieces pattern)

end Renumber.Pattern
