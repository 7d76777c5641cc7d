import Renumber.Disk.Actions

/-!
# Deeds

A deed is one change of a disk, told by paths and not by what the disk holds, so the
deeds of a run can be done again on another disk. A deed that fails changes nothing.
-/

namespace Renumber

open Renumber.Time (Instant)

/-- A change of a disk. -/
inductive Deed where
  | makeFolder (p : Path)
  | move (source target : Path)
  /-- Replace the bytes of a file, which is made when it is missing. -/
  | write (p : Path) (content : List UInt8)
  /-- Open a file for adding to it, which is made when it is missing. -/
  | openFile (p : Path)
  /-- Add bytes to a file that is open. -/
  | append (file : Nat) (content : List UInt8)
  | remove (p : Path)
  | setMode (p : Path) (mode : UInt32)
  | setTimes (p : Path) (modified accessed : Option Instant)
  deriving DecidableEq, Repr

namespace Deed

/-- The disk after a deed is done in a working folder. -/
def doOn (d : Disk) (now : Instant) (cwd : Location) : Deed → Except DiskFault Disk
  | makeFolder p => d.makeFolder now cwd p
  | move source target => d.move now cwd source target
  | write p content => do
    let (d, file) ← d.openFile now cwd p
    return d.writeFile now file content
  | openFile p => do
    let (d, _) ← d.openFile now cwd p
    return d
  | append file content => return d.appendFile now file content
  | remove p => d.removeFile now cwd p
  | setMode p mode => d.setMode cwd p mode
  | setTimes p modified accessed => d.setTimes cwd p modified accessed

/-- The same deed, whatever the working folder is. -/
def anchored (folder : Path) : Deed → Deed
  | makeFolder p => makeFolder (folder.join p)
  | move source target => move (folder.join source) (folder.join target)
  | write p content => write (folder.join p) content
  | openFile p => openFile (folder.join p)
  | append file content => append file content
  | remove p => remove (folder.join p)
  | setMode p mode => setMode (folder.join p) mode
  | setTimes p modified accessed => setTimes (folder.join p) modified accessed

/-- The paths that the deed is about. -/
def paths : Deed → List Path
  | makeFolder p => [p]
  | move source target => [source, target]
  | write p _ => [p]
  | openFile p => [p]
  | append _ _ => []
  | remove p => [p]
  | setMode p _ => [p]
  | setTimes p _ _ => [p]

/-- The deed sets times or permission bits. -/
def isTouch : Deed → Bool
  | setMode _ _ => true
  | setTimes _ _ _ => true
  | _ => false

end Deed

end Renumber
