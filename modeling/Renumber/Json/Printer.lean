import Renumber.Json.Basic

/-!
# Writing JSON

The compact form: no blanks, fields in the order of the value. In a string only the
quote, the backslash and the control characters below U+0020 are escaped.
-/

namespace Renumber.Json

/-- A hexadecimal digit in lower case. -/
def hexDigit (n : Nat) : Char :=
  Nat.digitChar (n % 16)

/-- A character as it stands inside quotes. -/
def escapeChar (c : Char) : List Char :=
  if c = '"' then ['\\', '"']
  else if c = '\\' then ['\\', '\\']
  else if c = '\n' then ['\\', 'n']
  else if c = '\r' then ['\\', 'r']
  else if c = '\t' then ['\\', 't']
  else if c.toNat = 8 then ['\\', 'b']
  else if c.toNat = 12 then ['\\', 'f']
  else if c.toNat < 0x20 then
    ['\\', 'u', '0', '0', hexDigit (c.toNat / 16), hexDigit c.toNat]
  else [c]

/-- A text in quotes. -/
def quoted (s : List Char) : List Char :=
  '"' :: (s.flatMap escapeChar ++ ['"'])

/-- The digits of a number. -/
def Number.chars : Number → List Char
  | .whole n => Nat.toDigits 10 n
  | .other written => written.toList

mutual

/-- The compact form of a value. -/
def chars : Json → List Char
  | .null => ['n', 'u', 'l', 'l']
  | .bool true => ['t', 'r', 'u', 'e']
  | .bool false => ['f', 'a', 'l', 's', 'e']
  | .number n => n.chars
  | .text s => quoted s.toList
  | .list items => '[' :: itemChars items
  | .object fields => '{' :: fieldChars fields

/-- Items with commas between them, and the closing bracket. -/
def itemChars : List Json → List Char
  | [] => [']']
  | [v] => v.chars ++ [']']
  | v :: rest => v.chars ++ ',' :: itemChars rest

/-- Fields with commas between them, and the closing brace. -/
def fieldChars : List (String × Json) → List Char
  | [] => ['}']
  | [(name, v)] => quoted name.toList ++ ':' :: (v.chars ++ ['}'])
  | (name, v) :: rest => quoted name.toList ++ ':' :: (v.chars ++ ',' :: fieldChars rest)

end

/-- The compact form as a string. -/
def render (v : Json) : String :=
  String.ofList v.chars

end Renumber.Json
