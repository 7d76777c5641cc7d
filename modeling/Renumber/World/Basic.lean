import Renumber.Disk.Deed

/-!
# The surroundings of a run

A world is a disk, the working folder, a clock, and an account of what was done and
said so far. The clock moves on whenever it is read, so no two readings are equal.
Actions are functions of the world; a failed action still leaves a world behind,
because what it did before failing stays done.
-/

namespace Renumber

open Renumber.Time (Instant)

/-- What a run depends on and changes. -/
structure World where
  disk : Disk
  cwd : Location
  clock : Instant
  /-- What the user was told, oldest first. -/
  notices : List String := []
  /-- What was done on the disk, newest first. -/
  deeds : List Deed := []
  /-- The number of looks for the user's wish to stop that still find none; none when
  there will be no such wish. -/
  interrupt : Option Nat := none

/-- An action that may fail; its changes up to the failure stay. -/
abbrev Act (ε α : Type) := ExceptT ε (StateM World) α

namespace World

/-- How far the clock moves on when it is read, in nanoseconds. -/
def clockStep : Nat := 1000

/-- Read the clock. -/
def readClock : StateM World Instant := do
  let w ← get
  set { w with clock := w.clock.after clockStep }
  return w.clock

/-- Show a notice to the user. -/
def notify (text : String) : StateM World Unit :=
  modify fun w => { w with notices := w.notices ++ [text] }

/-- Look for the user's wish to stop, which stays once it is there. -/
def lookForStop : StateM World Bool := do
  let w ← get
  match w.interrupt with
  | none => return false
  | some 0 => return true
  | some (n + 1) =>
    set { w with interrupt := some n }
    return false

/-- Something is at the path; a link counts for itself. -/
def present (w : World) (p : Path) : Bool :=
  w.disk.present w.cwd p

/-- Something is at the path once links are followed. -/
def reaches (w : World) (p : Path) : Bool :=
  w.disk.reaches w.cwd p

/-- A folder is at the path once links are followed. -/
def isFolder (w : World) (p : Path) : Bool :=
  w.disk.isFolder w.cwd p

/-- The path of a location. -/
def pathOf (loc : Location) : Path :=
  ⟨Path.slash :: Path.joinSegments loc⟩

/-- The path of the working folder. -/
def folder (w : World) : Path :=
  pathOf w.cwd

/-- The path without links and dots of what a path leads to, unless it is too long. -/
def resolve? (w : World) (p : Path) : Option Path :=
  match w.disk.findEntry w.cwd true p with
  | .ok (loc, _) =>
    if (pathOf loc).bytes.length > Disk.maxPath then none else some (pathOf loc)
  | .error _ => none

/-- Letter case does not count in a folder. It does, in all folders of this disk. -/
def foldsCase (_ : World) (_ : Path) : Bool :=
  false

/-- Ask the disk. -/
def ask {α : Type} (f : Disk → Location → Except DiskFault α) : Act DiskFault α := do
  let w ← get
  match f w.disk w.cwd with
  | .ok a => return a
  | .error fault => throw fault

/-- Do a deed on the disk, or nothing when that fails. -/
def act (deed : Deed) : Act DiskFault Unit := do
  let now ← readClock
  let w ← get
  match deed.doOn w.disk now w.cwd with
  | .ok disk => set { w with disk, deeds := deed.anchored w.folder :: w.deeds }
  | .error fault => throw fault

end World

end Renumber
