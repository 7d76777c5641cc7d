/-!
# TOML values

The values of a TOML document. Numbers with a point or an exponent, dates and times are
kept as written, since nothing ever computes with them. No two fields of a table have
one name.
-/

namespace Renumber

/-- A TOML value. -/
inductive Toml where
  | text (s : String)
  | integer (n : Int)
  | float (written : String)
  | bool (b : Bool)
  | time (written : String)
  | list (items : List Toml)
  | table (fields : List (String × Toml))
  deriving Repr

end Renumber
