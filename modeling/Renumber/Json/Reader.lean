import Renumber.Json.Basic
import Renumber.Text.Digit

/-!
# Reading JSON

Every reader takes a value from the front of a text and leaves the rest. Blanks are
space, tab, line feed and carriage return. A text is refused when a string holds a
bare control character or half of a surrogate pair, when a number is beyond the
range of double precision, or when values are nested deeper than 127.
-/

namespace Renumber.Json

/-- A blank between tokens. -/
def isGap (c : Char) : Bool :=
  c == ' ' || c == '\n' || c == '\t' || c == '\r'

/-- Skip the blanks in front. -/
def skipGaps (s : List Char) : List Char :=
  s.dropWhile isGap

/-- The value of four hexadecimal digits. -/
def hexUnit? (a b c d : Char) : Option Nat :=
  if [a, b, c, d].all (Text.isDigit 16) then some (Text.numberIn 16 [a, b, c, d]) else none

/-- The character of a one-letter escape. -/
def simpleEscape? (c : Char) : Option Char :=
  match c with
  | '"' => some '"'
  | '\\' => some '\\'
  | '/' => some '/'
  | 'b' => some '\x08'
  | 'f' => some '\x0c'
  | 'n' => some '\n'
  | 'r' => some '\r'
  | 't' => some '\t'
  | _ => none

/-- The unit is the first half of a surrogate pair. -/
def isHighHalf (n : Nat) : Bool :=
  0xD800 ≤ n && n < 0xDC00

/-- The unit is the second half of a surrogate pair. -/
def isLowHalf (n : Nat) : Bool :=
  0xDC00 ≤ n && n < 0xE000

/-- The rest of a string after its opening quote. -/
def readQuoted : List Char → Option (List Char × List Char)
  | [] => none
  | '"' :: rest => some ([], rest)
  | '\\' :: 'u' :: a :: b :: c :: d :: rest =>
    match hexUnit? a b c d with
    | none => none
    | some unit =>
      if isLowHalf unit then none
      else if isHighHalf unit then
        match rest with
        | '\\' :: 'u' :: e :: f :: g :: h :: rest =>
          match hexUnit? e f g h with
          | some low =>
            if isLowHalf low then
              (readQuoted rest).map fun (s, rest) =>
                (Char.ofNat (0x10000 + (unit - 0xD800) * 0x400 + (low - 0xDC00)) :: s, rest)
            else none
          | none => none
        | _ => none
      else (readQuoted rest).map fun (s, rest) => (Char.ofNat unit :: s, rest)
  | '\\' :: c :: rest =>
    match simpleEscape? c with
    | some e => (readQuoted rest).map fun (s, rest) => (e :: s, rest)
    | none => none
  | c :: rest =>
    if c = '\\' ∨ c.toNat < 0x20 then none
    else (readQuoted rest).map fun (s, rest) => (c :: s, rest)

/-- Half a unit above the greatest double: what is not below it rounds to infinity. -/
def doubleLimit : Nat :=
  Nat.pow 2 1024 - Nat.pow 2 970

/-- `digits` times a power of ten is within the range of double precision. -/
def isFinite (digits : Nat) (exponent : Int) : Bool :=
  if digits = 0 then true
  else if exponent > 400 then false
  else if exponent ≥ 0 then digits * Nat.pow 10 exponent.toNat < doubleLimit
  else if exponent.natAbs > (Nat.toDigits 10 digits).length then true
  else digits < doubleLimit * Nat.pow 10 exponent.natAbs

/-- The digits after a point: none without a point, at least one after it. -/
def readFraction (s : List Char) : Option (List Char × List Char) :=
  match s with
  | '.' :: rest =>
    let digits := rest.takeWhile Char.isDigit
    if digits.isEmpty then none else some (digits, rest.drop digits.length)
  | _ => some ([], s)

/-- The value of an exponent: none without an `e`, at least one digit after it. -/
def readExponent (s : List Char) : Option (Option Int × List Char) :=
  let start : Option (List Char) := match s with
    | 'e' :: rest => some rest
    | 'E' :: rest => some rest
    | _ => none
  match start with
  | none => some (none, s)
  | some rest =>
    let (negative, rest) := match rest with
      | '-' :: rest => (true, rest)
      | '+' :: rest => (false, rest)
      | _ => (false, rest)
    let digits := rest.takeWhile Char.isDigit
    if digits.isEmpty then none
    else
      let n : Int := Text.numberIn 10 digits
      some (some (if negative then -n else n), rest.drop digits.length)

/-- A number without superfluous zeros in front. -/
def readNumber (s : List Char) : Option (Number × List Char) := do
  let (negative, body) := match s with
    | '-' :: rest => (true, rest)
    | _ => (false, s)
  let digits := body.takeWhile Char.isDigit
  let rest := body.drop digits.length
  guard (!digits.isEmpty && (digits.length = 1 || digits.head? != some '0'))
  let (places, rest) ← readFraction rest
  let (exponent, rest) ← readExponent rest
  guard (isFinite (Text.numberIn 10 (digits ++ places)) (exponent.getD 0 - places.length))
  if !negative && places.isEmpty && exponent.isNone then
    return (.whole (Text.numberIn 10 digits), rest)
  else
    return (.other (String.ofList (s.take (s.length - rest.length))), rest)

/-- A fixed word. -/
def readWord (word : List Char) (s : List Char) : Option (List Char) :=
  if word.isPrefixOf s then some (s.drop word.length) else none

mutual

/-- A value, with blanks in front. `depth` is how many levels may still open. -/
def readValue : Nat → Nat → List Char → Option (Json × List Char)
  | 0, _, _ => none
  | fuel + 1, depth, s =>
    match skipGaps s with
    | '"' :: rest => (readQuoted rest).map fun (t, rest) => (.text (String.ofList t), rest)
    | '[' :: rest =>
      match depth with
      | 0 => none
      | depth + 1 =>
        match skipGaps rest with
        | ']' :: rest => some (.list [], rest)
        | _ => (readItems fuel depth rest).map fun (items, rest) => (.list items, rest)
    | '{' :: rest =>
      match depth with
      | 0 => none
      | depth + 1 =>
        match skipGaps rest with
        | '}' :: rest => some (.object [], rest)
        | _ => (readFields fuel depth rest).map fun (fields, rest) => (.object fields, rest)
    | 'n' :: rest => (readWord ['u', 'l', 'l'] rest).map fun rest => (.null, rest)
    | 't' :: rest => (readWord ['r', 'u', 'e'] rest).map fun rest => (.bool true, rest)
    | 'f' :: rest => (readWord ['a', 'l', 's', 'e'] rest).map fun rest => (.bool false, rest)
    | s => (readNumber s).map fun (n, rest) => (.number n, rest)

/-- The items of a list, one at least, and the closing bracket. -/
def readItems : Nat → Nat → List Char → Option (List Json × List Char)
  | 0, _, _ => none
  | fuel + 1, depth, s =>
    match readValue fuel depth s with
    | none => none
    | some (v, rest) =>
      match skipGaps rest with
      | ']' :: rest => some ([v], rest)
      | ',' :: rest => (readItems fuel depth rest).map fun (items, rest) => (v :: items, rest)
      | _ => none

/-- The fields of an object, one at least, and the closing brace. -/
def readFields : Nat → Nat → List Char → Option (List (String × Json) × List Char)
  | 0, _, _ => none
  | fuel + 1, depth, s =>
    match skipGaps s with
    | '"' :: rest =>
      match readQuoted rest with
      | none => none
      | some (name, rest) =>
        match skipGaps rest with
        | ':' :: rest =>
          match readValue fuel depth rest with
          | none => none
          | some (v, rest) =>
            match skipGaps rest with
            | '}' :: rest => some ([(String.ofList name, v)], rest)
            | ',' :: rest =>
              (readFields fuel depth rest).map fun (fields, rest) =>
                ((String.ofList name, v) :: fields, rest)
            | _ => none
        | _ => none
    | _ => none

end

/-- How deep values may be nested. -/
def maxDepth : Nat := 127

/-- The value at the front of a text and what follows it. Each reader called takes at
least one character, or is the first one called at its position, so twice the length
is fuel enough. -/
def readFront? (s : List Char) : Option (Json × List Char) :=
  readValue (2 * s.length + 2) maxDepth s

/-- The value of a text that holds nothing else. -/
def parse? (s : List Char) : Option Json :=
  match readFront? s with
  | some (v, rest) => if (skipGaps rest).isEmpty then some v else none
  | none => none

end Renumber.Json
