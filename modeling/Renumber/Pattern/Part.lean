import Renumber.Pattern.Search

/-!
# One part of a pattern

The part of a pattern for the name or for the extension. Formatting walks along a
source text: `?` copies its next character and `*` all that is left. Reading goes the
other way and finds the counter in a formatted text.
-/

namespace Renumber.Pattern

/-- A `?` at this place of the pattern had no source character left. -/
structure Shortfall where
  offset : Nat
  deriving DecidableEq, Repr

/-- The shortfall in words. -/
def Shortfall.message (w : Shortfall) : String :=
  "'?' at position " ++ toString w.offset ++ " has no source character left"

/-- A formatted text and what went short. -/
structure Formatted where
  text : List Char
  warnings : List Shortfall
  deriving DecidableEq, Repr

/-- Nothing went short. -/
def Formatted.isClean (f : Formatted) : Bool :=
  f.warnings.isEmpty

/-- Text in front of a formatted text. -/
def Formatted.after (chars : List Char) (f : Formatted) : Formatted :=
  ⟨chars ++ f.text, f.warnings⟩

/-- A part of a pattern and its tokens. -/
structure Part where
  pattern : List Char
  tokens : List Placed
  deriving DecidableEq, Repr

namespace Part

/-- Read a part; with `taken` no counter of it counts. -/
def parse (pattern : List Char) (taken : Bool := false) : Part :=
  ⟨pattern, tokenize taken pattern⟩

/-- The part numbers its texts. -/
def hasCounter (p : Part) : Bool :=
  p.tokens.any (·.token.isCounter)

/-- The part copies from its source. -/
def hasWildcard (p : Part) : Bool :=
  p.tokens.any (·.token.isWildcard)

/-- Format tokens, `source` being what is left to copy. -/
def formatTokens (counter : Nat) : List Placed → List Char → Formatted
  | [], _ => ⟨[], []⟩
  | t :: rest, source =>
    match t.token with
    | .literal c => (formatTokens counter rest source).after [c]
    | .counter style => (formatTokens counter rest source).after (style.render counter)
    | .anyRest => (formatTokens counter rest []).after source
    | .anyOne =>
      match source with
      | c :: source => (formatTokens counter rest source).after [c]
      | [] =>
        let out := formatTokens counter rest []
        ⟨out.text, ⟨t.offset⟩ :: out.warnings⟩

/-- Format with a source text and a counter. -/
def format (p : Part) (source : List Char) (counter : Nat) : Formatted :=
  formatTokens counter p.tokens source

/-- Match a whole text. -/
def match? (p : Part) (s : List Char) : Outcome :=
  matchTokens (p.tokens.map (·.token)) s

/-- The counter in a text that this part can have formatted. -/
def counterOf? (p : Part) (s : List Char) : Option Nat :=
  if p.hasCounter then (p.match? s).join else none

end Part

end Renumber.Pattern
