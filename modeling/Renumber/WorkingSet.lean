import Renumber.Failure
import Renumber.FileState
import Renumber.Path.Map

/-!
# Working sets

The files chosen for one piece of work, in the order given, with what is wanted for
each: a destination, or a file state. These wishes are held in maps that are built when
first needed and forgotten when the files move.
-/

namespace Renumber

/-- Wanted destinations by source; an empty path where nothing is wanted. -/
abbrev RenameItems := PathMap Path

namespace RenameItems

/-- Nothing is wanted yet for any source. -/
def ofSources (sources : List Path) : RenameItems :=
  .ofFirsts (sources.map fun source => (source, ⟨[]⟩))

/-- Something else than the source's own spelling is wanted. A change of case counts,
and so does another spelling of the same path. -/
def isModified (source target : Path) : Bool :=
  !target.isEmpty && target != source

/-- The pairs of all modified items. -/
def pairs (items : RenameItems) : PathMap Path :=
  items.filter isModified

/-- Set what is wanted for one source; what was wanted before comes back. -/
def setTarget (source target : Path) : ExceptT Failure (StateM RenameItems) Path := do
  let items ← get
  match items.find? source with
  | none => throw (.unknownItem source)
  | some before =>
    set (items.set source target)
    return before

end RenameItems

/-- A file state as read and as wanted. -/
structure TouchItem where
  former : FileState
  wanted : FileState
  deriving DecidableEq, Repr

/-- Another state is wanted. -/
def TouchItem.isModified (item : TouchItem) : Bool :=
  !item.wanted.same item.former

/-- Wanted file states by source. -/
abbrev TouchItems := PathMap TouchItem

namespace TouchItems

/-- For every file its own state is wanted. -/
def ofStates (states : List FileState) : TouchItems :=
  .ofFirsts (states.map fun state => (state.path, ⟨state, state⟩))

/-- Read the states of all sources; the first that cannot be read is the failure. -/
def read (sources : List Path) : Act Failure TouchItems := do
  let states ← sources.mapM fun source =>
    ExceptT.adapt (Failure.unreadable source) (FileState.read source)
  return ofStates states

/-- Set the state wanted for one source; what was wanted before comes back. -/
def setWanted (source : Path) (wanted : FileState) :
    ExceptT Failure (StateM TouchItems) FileState := do
  let items ← get
  match items.find? source with
  | none => throw (.unknownItem source)
  | some item =>
    set (items.set source { item with wanted })
    return item.wanted

/-- The modified items. -/
def modified (items : TouchItems) : List TouchItem :=
  (items.entries.map Prod.snd).filter TouchItem.isModified

end TouchItems

/-- Chosen files and what is wanted for them; a map is absent until it is needed. -/
structure WorkingSet where
  sources : List Path
  rename : Option RenameItems
  touch : Option TouchItems

namespace WorkingSet

/-- A working set for which nothing is built. -/
def ofSources (sources : List Path) : WorkingSet :=
  ⟨sources, none, none⟩

/-- The wanted destinations, built from the sources if they are not yet. -/
def renameItems (set : WorkingSet) : RenameItems :=
  set.rename.getD (RenameItems.ofSources set.sources)

/-- The set with its wanted destinations built. -/
def withRename (set : WorkingSet) : WorkingSet :=
  { set with rename := some set.renameItems }

/-- The wanted file states, read from the sources if they are not yet. -/
def touchItems (set : WorkingSet) : Act Failure TouchItems :=
  match set.touch with
  | some items => return items
  | none => TouchItems.read set.sources

/-- Where a path ends up after moves in order. -/
def follow (moves : List (Path × Path)) (p : Path) : Path :=
  moves.foldl (fun p (source, target) => if p.same source then target else p) p

/-- The set after its files moved; nothing stays built. -/
def followMoves (set : WorkingSet) (moves : List (Path × Path)) : WorkingSet :=
  ofSources (set.sources.map (follow moves))

end WorkingSet

/-- A world and the working set that edits apply to, if there is one. -/
structure Workspace where
  world : World
  items : Option WorkingSet

namespace Workspace

/-- Act on the world of a workspace. -/
def onWorld {ε α : Type} (act : Act ε α) : ExceptT ε (StateM Workspace) α := fun ws =>
  let (result, world) := act.run ws.world
  (result, { ws with world })

/-- The working set, which an edit cannot do without. -/
def workingSet : ExceptT Failure (StateM Workspace) WorkingSet := do
  match (← get).items with
  | some set => return set
  | none => throw .noWorkingSet

/-- Replace the working set. -/
def setItems (set : WorkingSet) : ExceptT Failure (StateM Workspace) Unit :=
  modify fun ws => { ws with items := some set }

end Workspace

end Renumber
