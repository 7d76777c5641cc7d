import Renumber.World.Files

/-!
# Operation logs

A log of all that runs do, one line for each entry, only ever added to. An open log
stays the same file when that file is moved or loses its name.
-/

namespace Renumber

open Renumber.Time (Instant)

/-- A log that is open for writing. -/
structure OperationLog where
  /-- The number of the file. -/
  file : Nat
  deriving DecidableEq, Repr

namespace OperationLog

/-- Open the log at a path, making it and the folders above it if they are missing. -/
def openAt (path : Path) : Act DiskFault OperationLog := do
  World.makeParent path
  World.act (.openFile path)
  let file ← World.ask fun disk cwd => disk.fileNumber cwd path
  return ⟨file⟩

/-- An entry with its time. -/
def line (time : Instant) (message : String) : String :=
  "[" ++ time.shortText ++ "] " ++ message ++ "\n"

/-- Add an entry, if that is possible. -/
def write (log : OperationLog) (message : String) : StateM World Unit := do
  let now ← World.readClock
  discard (World.act (.append log.file (Text.bytesOf (line now message)))).run

end OperationLog

end Renumber
