import Renumber.Numbering.Basic
import Renumber.WorkingSet

/-!
# Filling a working set in place

The destinations of a numbering become the wanted destinations of a working set. They
are written only when the whole batch could be numbered.
-/

namespace Renumber.Numbering

/-- Number the sources of a working set and want these destinations for them. -/
def fill (g : Numbering) (present : Path → Bool) :
    ExceptT Failure (StateM WorkingSet) Numbered := do
  let numbered ← g.number present (← get).sources
  modify WorkingSet.withRename
  numbered.pairs.entries.forM fun (source, target) => do
    let items := (← get).renameItems
    let (result, items) := (RenameItems.setTarget source target).run items
    modify fun set => { set with rename := some items }
    discard result
  return numbered

end Renumber.Numbering
