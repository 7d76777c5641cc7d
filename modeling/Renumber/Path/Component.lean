import Std.Data.TreeMap

/-!
# Path components

What a path is made of once superfluous separators and dots are gone. Components are
ordered: the root first, then a leading dot, then two dots, then names by their bytes.
The order is lawful, so that component lists can be the keys of sorted maps.
-/

namespace Renumber

/-- The bytes of a file name. -/
abbrev Name := List UInt8

/-- One component of a path. -/
inductive Component where
  | root
  | here
  | up
  | name (bytes : Name)
  deriving DecidableEq, Repr

namespace Component

/-- The bytes by which components are ordered. -/
def rank : Component → List UInt8
  | root => [0]
  | here => [1]
  | up => [2]
  | name bytes => 3 :: bytes

theorem rank_injective {a b : Component} (h : a.rank = b.rank) : a = b := by
  cases a <;> cases b <;> simp_all [rank]

instance : Ord Component where
  compare := compareOn rank

instance : Std.TransOrd Component :=
  inferInstanceAs (Std.TransCmp (compareOn rank))

instance : Std.LawfulEqOrd Component where
  compare_self {a} := Std.ReflCmp.compare_self (a := a.rank)
  eq_of_compare h := rank_injective (Std.LawfulEqOrd.eq_of_compare h)

end Component

end Renumber
