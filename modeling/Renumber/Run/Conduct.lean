import Renumber.OperationLog
import Renumber.Run.Basic

/-!
# How runs are conducted

A run on a workspace has a policy, possibly an operation log, and either heeds the
user's wish to stop or does not. Edits run under a policy of their own that stops at
the first failure, without a log.
-/

namespace Renumber

/-- How the commands of a run are conducted. -/
structure Conduct (σ : Type) where
  policy : Policy σ World
  log : Option OperationLog := none
  /-- The user's wish to stop cancels the run. -/
  heedsStop : Bool := false

namespace Conduct

variable {σ : Type}

/-- Write to the log, if there is one. -/
def note (c : Conduct σ) (message : String) (world : World) : World :=
  match c.log with
  | some log => ((log.write message).run world).2
  | none => world

/-- Look for the user's wish to stop, if it counts. -/
def stopped (c : Conduct σ) (world : World) : Bool × World :=
  if c.heedsStop then World.lookForStop.run world else (false, world)

/-- What commands do to a workspace. -/
def machine (c : Conduct σ) : Machine Workspace where
  execute command := command.execute.run.run
  note message ws := { ws with world := c.note message ws.world }
  stopped ws :=
    let (stop, world) := c.stopped ws.world
    (stop, { ws with world })

/-- Stop at the first failure, without a log. -/
def plain : Conduct σ where
  policy := .fixed false

end Conduct

end Renumber
