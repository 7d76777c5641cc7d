/-!
# JSON values

A value keeps the fields of an object in the order written, repeats included; looking
a field up finds the last one of its name. Of numbers only whole ones are told apart,
since nothing else is ever asked for.
-/

namespace Renumber

/-- A number: a whole one without sign, point or exponent, or any other as written. -/
inductive Json.Number where
  | whole (n : Nat)
  | other (written : String)
  deriving DecidableEq, Repr

/-- A JSON value. -/
inductive Json where
  | null
  | bool (b : Bool)
  | number (n : Json.Number)
  | text (s : String)
  | list (items : List Json)
  | object (fields : List (String × Json))
  deriving Repr

namespace Json

/-- A whole number as a value. -/
def ofNat (n : Nat) : Json :=
  .number (.whole n)

/-- `null` for a missing value. -/
def ofOption {α : Type} (f : α → Json) : Option α → Json
  | some a => f a
  | none => .null

/-- The last field of a name. -/
def field? (name : String) (fields : List (String × Json)) : Option Json :=
  fields.reverse.lookup name

end Json

end Renumber
