import Renumber.UndoLog.Reader

/-!
# Undo logs on disk

The stack of done batches is kept in one file and the stack of undone batches in a
second one beside it. Saving replaces the whole file.
-/

namespace Renumber.UndoLog

/-- The file beside a log that holds the undone batches. -/
def redoPath (log : Path) : Path :=
  log.append ".redo"

/-- What is added to the program's own path to name the log that is used when none is
named. -/
def suffix : String := ".undo.log"

/-- Replace the log at a path by that of a stack. When a batch cannot be written the
log ends before it. -/
def save (log : Path) (stack : List Batch) : Act DiskFault Unit := do
  World.makeParent log
  let written := write stack
  World.writeFile log (Text.encode written.text)
  match written.fault with
  | some fault => throw fault
  | none => return ()

/-- The notice about a log that is not text. -/
def brokenNotice : String :=
  "Warning: undo log is not valid text past this point, ignoring the rest"

/-- The stack in the log at a path; there is none when the log is missing. -/
def load (log : Path) : StateM World (List Batch) := do
  if (← get).reaches log then
    match ← (World.readFile log).run with
    | .ok bytes =>
      let (stack, broken) := readAll bytes
      if broken then World.notify brokenNotice
      return stack
    | .error .isFolder =>
      World.notify brokenNotice
      return []
    | .error fault =>
      World.notify ("Warning: failed to read undo log " ++ log.display ++ ": " ++ fault.message)
      return []
  else return []

end Renumber.UndoLog
