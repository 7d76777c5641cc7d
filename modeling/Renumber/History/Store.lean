import Renumber.History.Basic
import Renumber.UndoLog.Store

/-!
# Histories on disk

The done batches of a history are kept in the undo log, the undone ones in the file
beside it. That file is taken away when there is nothing to redo, so that a later
session does not find what an earlier one left there.
-/

namespace Renumber.History

/-- The history that a log and the file beside it hold. -/
def load (log : Path) (limit : Nat) : StateM World History := do
  let done ← UndoLog.load log
  let undone ← UndoLog.load (UndoLog.redoPath log)
  return prune ⟨done.reverse, undone.reverse, limit⟩

/-- Write a history to a log and the file beside it. -/
def save (h : History) (log : Path) : Act DiskFault Unit := do
  UndoLog.save log h.done.reverse
  let beside := UndoLog.redoPath log
  if h.undone.any Batch.isRecorded then UndoLog.save beside h.undone.reverse
  else if (← get).reaches beside then World.removeFile beside

end Renumber.History
