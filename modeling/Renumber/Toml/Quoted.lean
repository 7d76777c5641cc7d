import Renumber.Text.Digit

/-!
# Quoted texts of TOML

Texts stand in double quotes, where a backslash begins an escape, or in single quotes,
where it does not. Three quotes of either sort hold texts of several lines; a line feed
directly behind the opening quotes does not count, and one or two quotes may stand
directly before the closing ones.
-/

namespace Renumber.Toml

/-- A control character that may not stand in a document, line ends aside. -/
def isForbidden (c : Char) : Bool :=
  (c.toNat < 0x20 && c != '\t') || c.toNat = 0x7F

/-- The character with a code in hexadecimal digits. -/
def codeChar? (digits : List Char) : Option Char := do
  guard (digits.all (Text.isDigit 16))
  let code := Text.numberIn 16 digits
  if code < 0xD800 ∨ (0xDFFF < code ∧ code < 0x110000) then some (Char.ofNat code) else none

/-- The escape behind a backslash. -/
def readEscape (s : List Char) : Option (Char × List Char) :=
  match s with
  | 'b' :: rest => some ('\x08', rest)
  | 't' :: rest => some ('\t', rest)
  | 'n' :: rest => some ('\n', rest)
  | 'f' :: rest => some ('\x0c', rest)
  | 'r' :: rest => some ('\r', rest)
  | 'e' :: rest => some ('\x1b', rest)
  | '"' :: rest => some ('"', rest)
  | '\\' :: rest => some ('\\', rest)
  | c :: rest =>
    let length := if c = 'x' then 2 else if c = 'u' then 4 else if c = 'U' then 8 else 0
    if length = 0 ∨ rest.length < length then none
    else (codeChar? (rest.take length)).map fun c => (c, rest.drop length)
  | [] => none

/-- The end of a line at the front of a text. -/
def lineEnd? (s : List Char) : Option (List Char) :=
  match s with
  | '\n' :: rest => some rest
  | '\r' :: '\n' :: rest => some rest
  | _ => none

/-- A blank within a line. -/
def isBlank (c : Char) : Bool :=
  c == ' ' || c == '\t'

/-- A character of a gap that may reach over lines. -/
def isWideBlank (c : Char) : Bool :=
  isBlank c || c == '\n' || c == '\r'

/-- A text of one line up to its closing quote; `escapes` tells whether a backslash is
one. -/
def readShort (quote : Char) (escapes : Bool) : Nat → List Char → Option (List Char × List Char)
  | 0, _ => none
  | _, [] => none
  | fuel + 1, c :: rest =>
    if c = quote then some ([], rest)
    else if escapes && c == '\\' then do
      let (c, rest) ← readEscape rest
      let (chars, rest) ← readShort quote escapes fuel rest
      return (c :: chars, rest)
    else if isForbidden c then none
    else do
      let (chars, rest) ← readShort quote escapes fuel rest
      return (c :: chars, rest)

/-- A gap that a backslash at the end of a line skips. -/
def skippedGap? (s : List Char) : Option (List Char) :=
  match lineEnd? (s.dropWhile isBlank) with
  | some rest => some (rest.dropWhile isWideBlank)
  | none => none

/-- A text of several lines up to its closing quotes. -/
def readLong (quote : Char) (escapes : Bool) : Nat → List Char → Option (List Char × List Char)
  | 0, _ => none
  | fuel + 1, s =>
    let quotes := (s.takeWhile (· == quote)).length
    if 3 ≤ quotes then
      if quotes ≤ 5 then some (List.replicate (quotes - 3) quote, s.drop quotes) else none
    else
      match s with
      | [] => none
      | c :: rest =>
        if escapes && c == '\\' then
          match skippedGap? rest with
          | some rest => readLong quote escapes fuel rest
          | none => do
            let (c, rest) ← readEscape rest
            let (chars, rest) ← readLong quote escapes fuel rest
            return (c :: chars, rest)
        else
          match lineEnd? (c :: rest) with
          | some rest => do
            let (chars, rest) ← readLong quote escapes fuel rest
            return ('\n' :: chars, rest)
          | none =>
            if isForbidden c then none
            else do
              let (chars, rest) ← readLong quote escapes fuel rest
              return (c :: chars, rest)

/-- A text of one line behind its opening quote. -/
def shortText? (quote : Char) (s : List Char) : Option (List Char × List Char) :=
  readShort quote (quote == '"') (s.length + 1) s

/-- A text of several lines behind its opening quotes. -/
def longText? (quote : Char) (s : List Char) : Option (List Char × List Char) :=
  let s := (lineEnd? s).getD s
  readLong quote (quote == '"') (s.length + 1) s

/-- A quoted text, if there is one; inside the result, nothing means that it is
broken. -/
def quotedText? (s : List Char) : Option (Option (List Char × List Char)) :=
  match s with
  | '"' :: '"' :: '"' :: rest => some (longText? '"' rest)
  | '\'' :: '\'' :: '\'' :: rest => some (longText? '\'' rest)
  | '"' :: rest => some (shortText? '"' rest)
  | '\'' :: rest => some (shortText? '\'' rest)
  | _ => none

end Renumber.Toml
