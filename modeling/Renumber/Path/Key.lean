import Renumber.Path.Basic
import Renumber.Text.Case

/-!
# Keys of paths

Where letter case does not tell files apart, paths are compared by their lower-case
form. A key is what two paths share exactly when they name the same place.
-/

namespace Renumber

/-- What two spellings of one place share. -/
abbrev PathKey := List Component

namespace Path

/-- The path itself, or its lower-case text where case does not count. -/
def folded (caseInsensitive : Bool) (p : Path) : Path :=
  if caseInsensitive then ⟨Text.encode (Text.lower (Text.decodeLossy p.bytes))⟩ else p

/-- The key of a path. -/
def key (caseInsensitive : Bool) (p : Path) : PathKey :=
  (p.folded caseInsensitive).components

@[simp] theorem key_false (p : Path) : p.key false = p.components := rfl

end Path

end Renumber
