import Renumber.Answer.Basic
import Renumber.Request.Basic

/-!
# Requests about the history

Undoing the newest batch, redoing the newest undone one, and showing both stacks. What
could not be undone or redone of a batch stays on its stack, and the answer says so.
-/

namespace Renumber.Request

variable {σ : Type}

/-- The answer about a batch of which a part was undone or redone. -/
def stepAnswer (batch : Batch) (ran : Option Batch) (report : Report) : StepAnswer :=
  let commands := (ran.map Batch.size).getD 0
  { kind := (ran.map fun b => b.kind.key).getD "NONE"
    description := batch.description
    commands
    isPartial := commands < batch.size
    report }

/-- Undo the newest batch. -/
def undo (env : Surroundings σ) : Request σ StepAnswer :=
  env.inSession [] do
    match (← get).session.history.toUndo? with
    | none => throw .nothingToUndo
    | some batch =>
      let c ← env.beginRun ("Undoing: " ++ batch.description)
      let ran ← Session.undo c
      return stepAnswer batch ran (← Surroundings.endRun)

/-- Redo the newest undone batch. -/
def redo (env : Surroundings σ) : Request σ StepAnswer :=
  env.inSession [] do
    match (← get).session.history.toRedo? with
    | none => throw .nothingToRedo
    | some batch =>
      let c ← env.beginRun ("Redoing: " ++ batch.description)
      let ran ← Session.redo c
      return stepAnswer batch ran (← Surroundings.endRun)

/-- A batch as shown. -/
def historyEntry (stack : String) (b : Batch) : HistoryEntry :=
  { stack
    kind := b.kind.key
    time := b.stamp.map Time.Stamp.shortText
    description := b.description
    commands := b.size }

/-- Show the done batches, newest first, and then the undone ones, newest first; not
more than the limit, if there is one. -/
def history (env : Surroundings σ) (limit : Option Nat) : Request σ (List HistoryEntry) := do
  let scene ← get
  let (h, world) := (History.load env.undoLog env.settings.undo.limit).run scene.world
  set { scene with world }
  let entries := h.done.map (historyEntry "undo") ++ h.undone.map (historyEntry "redo")
  return match limit with
    | some n => entries.take n
    | none => entries

end Renumber.Request
