import Renumber.CommandLine.Reach
import Std.Time.DateTime.Timestamp

/-!
# The program

The program finds out what stands on the disk where the run looks, lets the run happen
on that, does its deeds on the disk and prints its answer. Folders are not listed, and
times and permissions are not set here: a command line that needs this is refused
before anything is done. There is no one to ask, so a failure ends the run.
-/

namespace Renumber.Program

open Renumber.Time (Instant)

/-- The present. -/
def readClock : IO Instant := do
  let now := (← Std.Time.Timestamp.now).toNanosecondsSinceUnixEpoch.val
  return ⟨now / Time.nanosPerSecond, (now % Time.nanosPerSecond).toNat⟩

/-- The path without links and dots of what stands at a path. -/
def resolve? (p : Path) : IO (Option Path) := do
  match ← (IO.FS.realPath p.display).toBaseIO with
  | .ok found => return some (.ofString (toString found))
  | .error _ => return none

/-- A folder stands at the path. -/
def isFolder (p : Path) : IO Bool :=
  return (← resolve? (p.join (.ofString "."))).isSome

/-- The names on the way to a path without links and dots. -/
def locationOf (p : Path) : Location :=
  (Path.segments p.bytes).filter (!·.isEmpty)

/-- Make known what stands at a path without links and dots; `whole` also its bytes. -/
def addEntry (now : Instant) (whole : Bool) (d : Disk) (p : Path) : IO Disk := do
  let loc := locationOf p
  if (d.get? loc).isSome then return d
  if ← isFolder p then return d.put loc (.folder (Disk.freshStats Disk.folderMode now))
  let (d, file) := d.addFile now loc.dropLast (loc.getLast?.getD [])
  if whole then
    return d.writeFile now file (← IO.FS.readBinFile p.display).toList
  return d

/-- Make known what stands on the way to a path without links and dots. -/
def addWay (now : Instant) (whole : Bool) (d : Disk) (p : Path) : IO Disk := do
  let way := (List.range (locationOf p).length).map fun n =>
    World.pathOf ((locationOf p).take (n + 1))
  way.foldlM (addEntry now whole) d

/-- Make known what stands on the way to a path, from the folder `base` on. -/
def addSteps (now : Instant) (whole : Bool) (d : Disk) (base : Path) : List Name → IO Disk
  | [] => return d
  | name :: rest => do
    let next := base.join ⟨name⟩
    match ← resolve? next with
    | none => return d
    | some found =>
      let d ← addWay now whole d found
      if found != next && name != [Path.dot] && name != [Path.dot, Path.dot] then
        addSteps now whole (d.put (locationOf next) (.link found)) found rest
      else addSteps now whole d found rest

/-- Make known what stands at a path. -/
def addPath (whole : Bool) (w : World) (p : Path) : IO World := do
  return { w with disk := ← addSteps w.clock whole w.disk (.ofString "/") (locationOf p) }

/-- Make known what a run looks at, until nothing new comes up. -/
partial def explore (inv : CommandLine.Invocation) (w : World) : IO World := do
  let more ← (CommandLine.records inv w).foldlM (addPath true) w
  let more ← (CommandLine.questions inv more).foldlM (addPath false) more
  if more.disk.entries.size == w.disk.entries.size then return w else explore inv more

/-- Do a deed on the disk. The operation log is the only file that is ever open. -/
def carryOut (log : Option IO.FS.Handle) : Deed → IO (Option IO.FS.Handle)
  | .makeFolder p => do IO.FS.createDir p.display; return log
  | .move source target => do
    if (← resolve? target).isSome then
      throw (IO.userError (DiskFault.occupied target).message)
    IO.FS.rename source.display target.display
    return log
  | .write p content => do IO.FS.writeBinFile p.display ⟨content.toArray⟩; return log
  | .openFile p => return some (← IO.FS.Handle.mk p.display .append)
  | .append _ content => do
    if let some file := log then file.write ⟨content.toArray⟩
    return log
  | .remove p => do IO.FS.removeFile p.display; return log
  | .setMode _ _ => return log
  | .setTimes _ _ _ => return log

/-- Why a command line is refused, if it is. -/
def refusal? (inv : CommandLine.Invocation) (w after : World) : Option String :=
  let recursive := match CommandLine.setting? inv w with
    | some ⟨{ order := .rename _ _ recursive _ _, .. }, _, _⟩ => recursive
    | _ => false
  if recursive then some "Folders cannot be listed here"
  else if after.deeds.any Deed.isTouch then some "Times and permissions cannot be set here"
  else none

/-- Run a command line. -/
def run (inv : CommandLine.Invocation) (folder : Path) : IO UInt32 := do
  let now ← readClock
  let empty : World := { disk := .empty now, cwd := locationOf folder, clock := now }
  let w ← explore inv (← addPath false empty folder)
  let (outcome, after) := (CommandLine.run inv).run w
  if let some why := refusal? inv w after then
    IO.eprint (CommandLine.errorLine why)
    return 3
  discard <| after.deeds.reverse.foldlM carryOut none
  IO.print outcome.out
  IO.eprint outcome.errors
  return UInt32.ofNat outcome.code

end Renumber.Program

/-- Run the command line that the program was started with. -/
def main (args : List String) : IO UInt32 := do
  let folder := Renumber.Path.ofString (toString (← IO.currentDir))
  let program := Renumber.Path.ofString (toString (← IO.appPath))
  let undoLog ← IO.getEnv "SEQREN_UNDO_LOG"
  let terminal ← (← IO.getStdout).isTty
  let inv : Renumber.CommandLine.Invocation :=
    { words := args
      undoLog := (undoLog.filter (!·.isEmpty)).map Renumber.Path.ofString
      usualLog := program.append Renumber.UndoLog.suffix
      terminal }
  try Renumber.Program.run inv folder
  catch e =>
    IO.eprint (Renumber.CommandLine.errorLine (toString e))
    return 3
