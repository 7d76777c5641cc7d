import Renumber.History.Store
import Renumber.Numbering.Basic
import Renumber.Run.Conduct

/-!
# Sessions

A session is the work on one choice of files: what is wanted for them, and the history
of what was done. Wishes are changed by edits, which can be undone as well; committing
turns them into a batch of commands on files. After files have moved the working set
follows them, and nothing is wanted any more.
-/

namespace Renumber

/-- The chosen files and the history of the work on them. -/
structure Session where
  items : WorkingSet
  history : History
  /-- Where the history is kept. -/
  log : Path
  caseInsensitive : Bool

/-- A session, the world around it, and the account of the runs it has made. -/
structure Sitting (σ : Type) where
  session : Session
  world : World
  answers : σ
  report : Report := {}

namespace Sitting

variable {σ : Type}

/-- The sitting with another working set. -/
def withItems (s : Sitting σ) (items : WorkingSet) : Sitting σ :=
  { s with session := { s.session with items } }

/-- The wanted destinations, which are built for it. -/
def renameItems (s : Sitting σ) : RenameItems × Sitting σ :=
  let items := s.session.items.withRename
  (items.renameItems, s.withItems items)

/-- Follow files that have moved, and forget all wishes. -/
def followMoves (moves : List (Path × Path)) (s : Sitting σ) : Sitting σ :=
  s.withItems (s.session.items.followMoves moves)

/-- Forget all wishes. -/
def refresh (s : Sitting σ) : Sitting σ :=
  s.withItems (.ofSources s.session.items.sources)

/-- Read the clock. -/
def readClock (s : Sitting σ) : Time.Instant × Sitting σ :=
  let (now, world) := World.readClock.run s.world
  (now, { s with world })

end Sitting

namespace Session

variable {σ : Type}

/-- Begin a session on some sources with the history in a log. -/
def start (sources : List Path) (log : Path) (limit : Nat) : StateM World Session := do
  let folder := (sources.head?.bind Path.parent?).getD ⟨[]⟩
  let caseInsensitive := (← get).foldsCase folder
  let history ← History.load log limit
  return ⟨.ofSources sources, history, log, caseInsensitive⟩

/-- Keep the history. -/
def save (s : Session) : Act DiskFault Unit :=
  s.history.save s.log

/-- Let the history run something, with the working set at hand for edits or not. -/
def onHistory {α : Type} (withItems : Bool)
    (step : History → Run.State σ Workspace → α × History × Run.State σ Workspace) :
    StateM (Sitting σ) α := fun s =>
  let items := if withItems then some s.session.items else none
  let (a, history, r) := step s.session.history ⟨s.answers, ⟨s.world, items⟩, s.report⟩
  (a,
    { session :=
        { s.session with history, items := r.place.items.getD s.session.items }
      world := r.place.world
      answers := r.answers
      report := r.report })

/-- Run a batch. -/
def execute (c : Conduct σ) (withItems : Bool) (b : Batch) : StateM (Sitting σ) Bool :=
  onHistory withItems fun h r => h.execute c.machine c.policy.onWorkspace b r

/-- The wanted file states, which are built for it. -/
def touchItems : ExceptT Failure (StateM (Sitting σ)) TouchItems := do
  let s ← get
  let (items, world) := s.session.items.touchItems.run s.world
  set { s with world }
  let items ← items
  modify (·.withItems { s.session.items with touch := some items })
  return items

/-- The changes that lead to new destinations, by source. -/
def redirections (items : RenameItems) (pairs : PathPairs) : List (Change Path) :=
  pairs.entries.filterMap fun (source, after) =>
    match items.find? source with
    | some before => if before.same after then none else some ⟨source, before, after⟩
    | none => none

/-- Fill in all destinations from a numbering, as one edit. -/
def generate (c : Conduct σ) (g : Numbering) : ExceptT Failure (StateM (Sitting σ)) Numbered := do
  let s ← get
  let numbered ← g.number s.world.present s.session.items.sources
  let changes := redirections (← modifyGet Sitting.renameItems) numbered.pairs
  unless changes.isEmpty do
    discard <| execute c true
      { kind := .redirect
        tag := "Generate names with " ++ String.ofList g.spec.pattern
        commands := [.redirect changes] }
  return numbered

/-- Set one destination, as one edit. Tells whether that was possible. -/
def setDestination (c : Conduct σ) (source target : Path) : StateM (Sitting σ) Bool := do
  let before := ((← modifyGet Sitting.renameItems).find? source).getD ⟨[]⟩
  execute c true { kind := .edit, commands := [.edit ⟨source, before, target⟩] }

/-- The changes that an edit of file states makes, by source. The edit is asked once for
each source and need not treat all alike. -/
def restatements (items : TouchItems) (edit : Path → FileState → FileState) :
    List (Change FileState) :=
  items.entries.filterMap fun (source, item) =>
    let after := edit source item.wanted
    if after.same item.wanted then none else some ⟨item.former.path, item.wanted, after⟩

/-- Change wanted file states, as one edit. Tells whether any changed. -/
def restate (c : Conduct σ) (edit : Path → FileState → FileState) :
    ExceptT Failure (StateM (Sitting σ)) Bool := do
  let changes := restatements (← touchItems) edit
  if changes.isEmpty then return false
  execute c true { kind := .restate, commands := [.restate changes] }

/-- Change all wanted file states alike. -/
def setTouch (c : Conduct σ) (edit : FileState → FileState) :
    ExceptT Failure (StateM (Sitting σ)) Bool :=
  restate c fun _ => edit

/-- The changes that take back all destinations that are built. -/
def pathResets (items : WorkingSet) : List (Change Path) :=
  match items.rename with
  | some rename =>
    (rename.entries.filter fun (_, target) => !target.isEmpty).map fun (source, target) =>
      ⟨source, target, ⟨[]⟩⟩
  | none => []

/-- The changes that take back all file states that are built. -/
def stateResets (items : WorkingSet) : List (Change FileState) :=
  match items.touch with
  | some touch =>
    touch.modified.map fun item => ⟨item.former.path, item.wanted, item.former⟩
  | none => []

/-- Take back all wishes, as one edit. Tells whether there were any. -/
def reset (c : Conduct σ) : StateM (Sitting σ) Bool := do
  let items := (← get).session.items
  let paths := pathResets items
  let states := stateResets items
  if paths.isEmpty && states.isEmpty then return false
  execute c true { kind := .reset, commands := [.reset paths states] }

/-- Plan the renames that are wanted. -/
def plan : ExceptT Failure (StateM (Sitting σ)) RenamePlan := do
  let items ← modifyGet Sitting.renameItems
  let s ← get
  Plan.strict s.world.present s.session.caseInsensitive items.pairs

/-- The batch that carries out a plan. -/
def renameBatch (plan : RenamePlan) (tag : String) (now : Time.Instant) : Batch :=
  { kind := .rename
    tag
    stamp := some now.stamp
    commands := plan.steps.map fun step => .rename step.source step.target }

/-- The batch that writes wanted file states. -/
def touchBatch (items : TouchItems) (now : Time.Instant) : Batch :=
  { kind := .touch
    stamp := some now.stamp
    commands := items.modified.map fun item => .touch item.former item.wanted }

/-- Carry out the wanted renames. The working set follows what ran of them. -/
def commitRenames (c : Conduct σ) :
    ExceptT Failure (StateM (Sitting σ)) (RenamePlan × Bool) := do
  let plan ← plan
  if plan.steps.isEmpty then return (plan, false)
  let executed ← execute c false (renameBatch plan "" (← modifyGet Sitting.readClock))
  if executed then
    modify fun s => s.followMoves ((s.session.history.toUndo?.map Batch.moves).getD [])
  return (plan, executed)

/-- Write the wanted file states. -/
def commitTouch (c : Conduct σ) : ExceptT Failure (StateM (Sitting σ)) Bool := do
  let now ← modifyGet Sitting.readClock
  let batch := touchBatch (← touchItems) now
  if batch.isEmpty then return false
  let executed ← execute c false batch
  modify Sitting.refresh
  return executed

/-- Adjust the working set after a batch was undone or redone with these moves. -/
def settle (done : Batch) (moves : List (Path × Path)) (s : Sitting σ) : Sitting σ :=
  match done.kind with
  | .rename => s.followMoves moves
  | .touch => s.refresh
  | _ => s

/-- Undo the newest batch; what was undone comes back. -/
def undo (c : Conduct σ) : StateM (Sitting σ) (Option Batch) := do
  let done ← onHistory true fun h r => h.undo c.machine c.policy.onWorkspace r
  if let some b := done then modify (settle b b.movesUndone)
  return done

/-- Redo the newest undone batch; what was redone comes back. -/
def redo (c : Conduct σ) : StateM (Sitting σ) (Option Batch) := do
  let done ← onHistory true fun h r => h.redo c.machine c.policy.onWorkspace r
  if let some b := done then modify (settle b b.moves)
  return done

end Session

end Renumber
