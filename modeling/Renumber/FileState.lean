import Renumber.World.Files

/-!
# File states

A snapshot of what is recorded about a file besides its contents, and how it is
written back. The read-only attribute decides the write bits: none when it is set, at
least the owner's when it is not. A creation time is kept but cannot be set.
-/

namespace Renumber

open Renumber.Time (Instant)

/-- Attribute flags of a file. -/
structure Attributes where
  bits : UInt32
  deriving DecidableEq, Repr

namespace Attributes

/-- The flag of a file that must not be written. -/
def readonlyFlag : UInt32 := 1

/-- No flag. -/
def none : Attributes := ⟨0⟩

/-- All bits of a flag are set. -/
def contains (a : Attributes) (flag : UInt32) : Bool :=
  a.bits &&& flag == flag

/-- The file must not be written. -/
def readonly (a : Attributes) : Bool :=
  a.contains readonlyFlag

/-- The attributes with a flag set or cleared. -/
def set (a : Attributes) (flag : UInt32) (on : Bool) : Attributes :=
  if on then ⟨a.bits ||| flag⟩ else ⟨a.bits &&& ~~~flag⟩

end Attributes

/-- A snapshot of a file. Times and permission bits may be unknown. -/
structure FileState where
  path : Path
  attributes : Attributes
  modified : Option Instant
  created : Option Instant
  accessed : Option Instant
  mode : Option UInt32
  deriving DecidableEq, Repr

namespace FileState

/-- The state of which nothing is known. -/
def empty (path : Path) : FileState :=
  ⟨path, .none, none, none, none, none⟩

/-- The same state for another path. -/
def onto (s : FileState) (path : Path) : FileState :=
  { s with path }

/-- Two states agree; the spelling of the path does not count. -/
def same (a b : FileState) : Bool :=
  a.path.same b.path && a == b.onto a.path

/-- All write bits. -/
def writeBits : UInt32 := 0o222

/-- The snapshot that stats amount to. -/
def ofStats (path : Path) (stats : Stats) : FileState :=
  ⟨path, Attributes.none.set Attributes.readonlyFlag (stats.mode &&& writeBits == 0),
    some stats.modified, some stats.created, some stats.accessed, some stats.mode⟩

/-- Take a snapshot; links are followed. -/
def read (path : Path) : Act DiskFault FileState := do
  return ofStats path (← World.ask fun disk cwd => disk.readStats cwd path)

/-- The permission bits that applying a state leads to. -/
def targetMode (s : FileState) (current : UInt32) : UInt32 :=
  let mode := s.mode.getD current
  if s.attributes.readonly then mode &&& ~~~writeBits
  else if mode &&& writeBits == 0 then mode ||| Disk.ownerWrite
  else mode

/-- Set the permission bits at a path. -/
def setMode (path : Path) (mode : UInt32) : Act DiskFault Unit :=
  World.act (.setMode path mode)

/-- Write a state's times and permissions to the file at its path. The file is made
writable for that; when something fails it gets its permissions back. -/
def apply (s : FileState) : Act DiskFault Unit := do
  let stats ← World.ask fun disk cwd => disk.readStats cwd s.path
  let former := stats.mode
  let unlocked := former ||| Disk.ownerWrite
  if unlocked != former then setMode s.path unlocked
  tryCatch
    (do
      World.act (.setTimes s.path s.modified s.accessed)
      setMode s.path (s.targetMode former))
    fun fault => do
      tryCatch (setMode s.path former) fun _ => pure ()
      throw fault

end FileState

end Renumber
