import Renumber.Request.Failure
import Renumber.Session
import Renumber.Settings.Basic

/-!
# Requests

A request is one thing asked of the program. It opens a session of its own on the
history on disk, and keeps the history again when it changed something. The operation
log is opened only when there is something to run.
-/

namespace Renumber

/-- What requests need besides their own arguments. -/
structure Surroundings (σ : Type) where
  settings : Settings
  undoLog : Path
  operationLog : Option Path
  policy : Policy σ World
  /-- The user's wish to stop cancels runs. -/
  heedsStop : Bool

/-- The world and the state of the policy. -/
structure Scene (σ : Type) where
  world : World
  answers : σ

/-- A request that may fail; its changes up to the failure stay. -/
abbrev Request (σ α : Type) := ExceptT RequestFailure (StateM (Scene σ)) α

/-- A part of a request that works in a session. -/
abbrev Work (σ α : Type) := ExceptT RequestFailure (StateM (Sitting σ)) α

namespace Surroundings

variable {σ : Type}

/-- Work in a session on some sources. -/
def inSession {α : Type} (env : Surroundings σ) (sources : List Path) (work : Work σ α) :
    Request σ α := fun scene =>
  let (session, world) := (Session.start sources env.undoLog env.settings.undo.limit).run
    scene.world
  let (result, s) := work.run ⟨session, world, scene.answers, {}⟩
  (result, ⟨s.world, s.answers⟩)

/-- Do something to the world of a session. -/
def onWorld {α : Type} (act : Act DiskFault α) (why : DiskFault → RequestFailure) : Work σ α :=
  fun s =>
    let (result, world) := act.run s.world
    (result.mapError why, { s with world })

/-- Open the operation log, if there is one. -/
def openLog (env : Surroundings σ) : Work σ (Option OperationLog) := do
  match env.operationLog with
  | none => return none
  | some path => return some (← onWorld (OperationLog.openAt path) (.operationLog path))

/-- Begin a run: open the log and write its first line. The account starts anew. -/
def beginRun (env : Surroundings σ) (message : String) : Work σ (Conduct σ) := do
  let c : Conduct σ := ⟨env.policy, ← env.openLog, env.heedsStop⟩
  modify fun s => { s with world := c.note message s.world, report := {} }
  return c

/-- End a run: keep the history. The account comes back. -/
def endRun : Work σ Report := do
  let s ← get
  onWorld s.session.save (.undoLog s.session.log)
  return s.report

/-- A part of the work on a session. -/
def step {α : Type} (work : ExceptT Failure (StateM (Sitting σ)) α) : Work σ α :=
  ExceptT.adapt .part work

end Surroundings

end Renumber
