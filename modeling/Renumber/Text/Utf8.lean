/-!
# UTF-8

Bytes are read as a list of pieces: a character, or a broken run that no
character can start with. A broken run is as long as it agrees with the start of
some well-formed character, so that the readable form shows one replacement
character for it. Strict reading accepts bytes without broken runs only.
-/

namespace Renumber.Text

/-- The UTF-8 bytes of a text. -/
def encode (s : List Char) : List UInt8 :=
  s.flatMap String.utf8EncodeChar

@[simp] theorem encode_nil : encode [] = [] := rfl

@[simp] theorem encode_cons (c : Char) (s : List Char) :
    encode (c :: s) = String.utf8EncodeChar c ++ encode s := rfl

@[simp] theorem encode_append (s t : List Char) : encode (s ++ t) = encode s ++ encode t := by
  simp [encode]

/-- The UTF-8 bytes of a string. -/
def bytesOf (s : String) : List UInt8 :=
  encode s.toList

/-- What may follow a lead byte: the least and greatest second byte, and how many
plain continuation bytes come after it. -/
def leadBounds (b : UInt8) : Option (UInt8 × UInt8 × Nat) :=
  if b < 0xC2 then none
  else if b < 0xE0 then some (0x80, 0xBF, 0)
  else if b = 0xE0 then some (0xA0, 0xBF, 1)
  else if b = 0xED then some (0x80, 0x9F, 1)
  else if b < 0xF0 then some (0x80, 0xBF, 1)
  else if b = 0xF0 then some (0x90, 0xBF, 2)
  else if b < 0xF4 then some (0x80, 0xBF, 2)
  else if b = 0xF4 then some (0x80, 0x8F, 2)
  else none

/-- The six payload bits of a continuation byte. -/
def tailBits (b : UInt8) : Nat :=
  b.toNat % 64

/-- A continuation byte. -/
def isTail (b : UInt8) : Bool :=
  0x80 ≤ b && b ≤ 0xBF

/-- The pieces of a byte text: `some c` for a character, `none` for a broken run. -/
def pieces : List UInt8 → List (Option Char)
  | [] => []
  | a :: rest =>
    if a < 0x80 then some (Char.ofNat a.toNat) :: pieces rest
    else match leadBounds a with
      | none => none :: pieces rest
      | some (low, high, more) =>
        match rest with
        | [] => [none]
        | b :: rest₁ =>
          if b < low || high < b then none :: pieces (b :: rest₁)
          else if more = 0 then
            some (Char.ofNat (a.toNat % 32 * 64 + tailBits b)) :: pieces rest₁
          else match rest₁ with
            | [] => [none]
            | c :: rest₂ =>
              if !isTail c then none :: pieces (c :: rest₂)
              else if more = 1 then
                some (Char.ofNat (a.toNat % 16 * 4096 + tailBits b * 64 + tailBits c)) ::
                  pieces rest₂
              else match rest₂ with
                | [] => [none]
                | d :: rest₃ =>
                  if !isTail d then none :: pieces (d :: rest₃)
                  else
                    some (Char.ofNat (a.toNat % 8 * 262144 + tailBits b * 4096 +
                      tailBits c * 64 + tailBits d)) :: pieces rest₃

/-- The text of well-formed bytes. -/
def decode? (bytes : List UInt8) : Option (List Char) :=
  (pieces bytes).mapM id

/-- The text of any bytes, with U+FFFD in place of each broken run. -/
def decodeLossy (bytes : List UInt8) : List Char :=
  (pieces bytes).map (·.getD '\uFFFD')

/-- The string of any bytes, with U+FFFD in place of each broken run. -/
def lossyString (bytes : List UInt8) : String :=
  String.ofList (decodeLossy bytes)

end Renumber.Text
