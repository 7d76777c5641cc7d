import Renumber.Run.Batch

/-!
# Histories

A history is a stack of done batches and a stack of undone ones, newest first. A batch
that is executed starts a new branch: what was undone before is forgotten. Edits belong
to a working set that lasts only until files move, so they are dropped from both stacks
once a recorded batch has run. When the stack of done batches grows beyond its limit
the oldest ones are forgotten.
-/

namespace Renumber

/-- Done and undone batches, newest first. -/
structure History where
  done : List Batch := []
  undone : List Batch := []
  /-- The most batches that can be undone; at least one can. -/
  limit : Nat
  deriving DecidableEq, Repr

namespace History

variable {σ ω : Type}

/-- How many batches are kept when nothing else is asked for. -/
def defaultLimit : Nat := 100

/-- Forget the oldest batches beyond the limit. -/
def prune (h : History) : History :=
  { h with done := h.done.take (max h.limit 1) }

/-- Forget all edits. -/
def dropEdits (h : History) : History :=
  { h with
    done := h.done.filter Batch.isRecorded
    undone := h.undone.filter Batch.isRecorded }

/-- Forget all edits if a batch is recorded. -/
def settle (h : History) (b : Batch) : History :=
  if b.isRecorded then h.dropEdits else h

/-- Forget everything. -/
def clear (h : History) : History :=
  { h with done := [], undone := [] }

/-- The batch that would be undone. -/
def toUndo? (h : History) : Option Batch :=
  h.done.head?

/-- The batch that would be redone. -/
def toRedo? (h : History) : Option Batch :=
  h.undone.head?

/-- Run a batch and keep what ran of it. Tells whether anything did; if not, the
history stays as it was. -/
def execute (h : History) (m : Machine ω) (p : Policy σ ω) (b : Batch) (r : Run.State σ ω) :
    Bool × History × Run.State σ ω :=
  match b.execute m p r with
  | (none, r) => (false, h, r)
  | (some ran, r) =>
    let h := h.settle ran
    (true, { h with done := ran :: h.done, undone := [] }.prune, r)

/-- Undo the newest done batch. What was undone of it comes back; the rest stays
done. -/
def undo (h : History) (m : Machine ω) (p : Policy σ ω) (r : Run.State σ ω) :
    Option Batch × History × Run.State σ ω :=
  match h.done with
  | [] => (none, h, r)
  | b :: rest =>
    let (split, r) := b.undo m p r
    let h := { h with done := split.left.toList ++ rest }
    match split.ran with
    | none => (none, h, r)
    | some ran =>
      let h := h.settle b
      (some ran, { h with undone := ran :: h.undone }, r)

/-- Redo the newest undone batch. What was redone of it comes back; the rest stays
undone. -/
def redo (h : History) (m : Machine ω) (p : Policy σ ω) (r : Run.State σ ω) :
    Option Batch × History × Run.State σ ω :=
  match h.undone with
  | [] => (none, h, r)
  | b :: rest =>
    let (split, r) := b.redo m p r
    let h := { h with undone := split.left.toList ++ rest }
    match split.ran with
    | none => (none, h, r)
    | some ran =>
      let h := h.settle b
      (some ran, { h with done := ran :: h.done }.prune, r)

end History

end Renumber
