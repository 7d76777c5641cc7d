import Renumber.Batch
import Renumber.Run.Basic

/-!
# Running batches

A batch keeps only the commands that ran. Undoing runs the inverses from the last
command to the first; what did not run stays done, so a batch is split in two, and the
two parts together are the batch again.
-/

namespace Renumber

/-- A batch after it was undone or redone: the part for which that ran and the part
that is left. A part without commands is absent. -/
structure Split where
  ran : Option Batch
  left : Option Batch
  deriving DecidableEq, Repr

namespace Batch

variable {σ ω : Type}

/-- The parts of a batch. -/
def split (b : Batch) (parts : Run.Parts) : Split :=
  ⟨b.part? parts.done, b.part? parts.left⟩

/-- Run a batch for the first time; what does not run is dropped from it. -/
def execute (b : Batch) (m : Machine ω) (p : Policy σ ω) (r : Run.State σ ω) :
    Option Batch × Run.State σ ω :=
  let (parts, r) := Run.commands m p false b.commands r
  (b.part? parts.done, r)

/-- Run the inverses of a batch, last command first. -/
def undo (b : Batch) (m : Machine ω) (p : Policy σ ω) (r : Run.State σ ω) :
    Split × Run.State σ ω :=
  let (parts, r) := Run.commands m p true b.commands.reverse r
  (b.split ⟨parts.done.reverse, parts.left.reverse⟩, r)

/-- Run a batch again after it was undone. -/
def redo (b : Batch) (m : Machine ω) (p : Policy σ ω) (r : Run.State σ ω) :
    Split × Run.State σ ω :=
  let (parts, r) := Run.commands m p false b.commands r
  (b.split parts, r)

end Batch

end Renumber
