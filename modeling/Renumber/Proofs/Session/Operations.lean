import Renumber.Proofs.History.Steps
import Renumber.Proofs.Session.Kept

/-!
# What can be done in a session

The operations of a session run at most one batch each, and what they do besides to the
working set is known. So the session after an operation is given by what its history and
the run of the batch come to. A session can be reached by operations under any conduct,
whatever happens to the world between them.
-/

namespace Renumber.Session

open Outcome

variable {σ : Type}

/-- The sitting after a history ran something. Only the working set may have changed
besides. -/
def after (s : Sitting σ) (items : WorkingSet) (h : History) (r : Run.State σ Workspace) : Sitting σ where
  session := { s.session with items, history := h }
  world := r.place.world
  answers := r.answers
  report := r.report

/-- The state in which a run on a sitting starts. -/
def stateOf (s : Sitting σ) (items : Option WorkingSet) : Run.State σ Workspace :=
  ⟨s.answers, ⟨s.world, items⟩, s.report⟩

/-- The sitting after a history ran something on the working set or without it. -/
def ended (s : Sitting σ) (h : History) (r : Run.State σ Workspace) : Sitting σ :=
  after s (r.place.items.getD s.session.items) h r

/-! ## Edits -/

/-- A change of what is wanted, by the one who uses the session. -/
inductive Edit where
  | generate (g : Numbering)
  | setDestination (source target : Path)
  /-- Change wanted file states; the change need not be the same for all sources. -/
  | restate (edit : Path → FileState → FileState)
  | reset

/-- Make an edit. -/
def Edit.run (e : Edit) (c : Conduct σ) (s : Sitting σ) : Sitting σ :=
  match e with
  | .generate g => ((Session.generate c g).run.run s).2
  | .setDestination source target => ((Session.setDestination c source target).run s).2
  | .restate edit => ((Session.restate c edit).run.run s).2
  | .reset => ((Session.reset c).run s).2

theorem run_execute (c : Conduct σ) (withItems : Bool) (b : Batch) (s : Sitting σ) :
    (execute c withItems b).run s =
      let out := s.session.history.execute c.machine c.policy.onWorkspace b
        (stateOf s (if withItems then some s.session.items else none))
      (out.1, ended s out.2.1 out.2.2) := rfl

/-- The sitting after a command ran as a batch of its own, with the working set at hand. -/
def executed (c : Conduct σ) (b : Batch) (s : Sitting σ) : Sitting σ :=
  ((execute c true b).run s).2

/-- Filling in a numbering is an edit of the destinations that differ, if there are any. -/
theorem run_generate (c : Conduct σ) (g : Numbering) (s : Sitting σ) :
    Edit.run (.generate g) c s =
      match g.number s.world.present s.session.items.sources with
      | .error _ => s
      | .ok numbered =>
        let changes := redirections s.session.items.renameItems numbered.pairs
        let s := s.withItems s.session.items.withRename
        if changes.isEmpty then s
        else executed c
          { kind := .redirect
            tag := "Generate names with " ++ String.ofList g.spec.pattern
            commands := [.redirect changes] } s := by
  rw [Edit.run, generate, run_bind, run_get]
  dsimp only
  rw [run_bind, run_liftExcept]
  rcases g.number s.world.present s.session.items.sources with _ | numbered
  · rfl
  · dsimp only
    rw [run_bind, run_modifyGet]
    dsimp only
    rw [run_ite]
    split
    · next empty =>
      have none_left : (redirections s.session.items.renameItems numbered.pairs).isEmpty = true := empty
      rw [if_pos none_left]
      rfl
    · next some_change =>
      have some_left : ¬(redirections s.session.items.renameItems numbered.pairs).isEmpty = true :=
        some_change
      rw [if_neg some_left, run_bind, run_discard, run_lift]
      rfl

theorem run_setDestination (c : Conduct σ) (source target : Path) (s : Sitting σ) :
    Edit.run (.setDestination source target) c s =
      let before := (s.session.items.renameItems.find? source).getD ⟨[]⟩
      executed c { kind := .edit, commands := [.edit ⟨source, before, target⟩] }
        (s.withItems s.session.items.withRename) := rfl

theorem run_touchItems (s : Sitting σ) :
    (touchItems : ExceptT Failure (StateM (Sitting σ)) TouchItems).run.run s =
      match s.session.items.touchItems.run.run s.world with
      | (.error failure, world) => (.error failure, { s with world })
      | (.ok items, world) => (.ok items,
          { s with world }.withItems { s.session.items with touch := some items }) := by
  rw [touchItems, run_bind, run_get]
  dsimp only
  rcases out : s.session.items.touchItems.run.run s.world with ⟨_ | items, w⟩
  · have out : ExceptT.run s.session.items.touchItems s.world = _ := out
    rw [out]
    rfl
  · have out : ExceptT.run s.session.items.touchItems s.world = _ := out
    rw [out]
    rfl

/-- Changing file states reads them first, and is an edit of those that differ. -/
theorem run_restate (c : Conduct σ) (edit : Path → FileState → FileState) (s : Sitting σ) :
    Edit.run (.restate edit) c s =
      match s.session.items.touchItems.run.run s.world with
      | (.error _, world) => { s with world }
      | (.ok items, world) =>
        let changes := restatements items edit
        let s := { s with world }.withItems { s.session.items with touch := some items }
        if changes.isEmpty then s
        else executed c { kind := .restate, commands := [.restate changes] } s := by
  rw [Edit.run, restate, run_bind, run_touchItems]
  rcases s.session.items.touchItems.run.run s.world with ⟨_ | items, w⟩
  · rfl
  · dsimp only
    rw [run_ite]
    split
    · rfl
    · rw [run_lift]
      rfl

theorem run_reset (c : Conduct σ) (s : Sitting σ) :
    Edit.run .reset c s =
      let paths := pathResets s.session.items
      let states := stateResets s.session.items
      if paths.isEmpty && states.isEmpty then s
      else executed c { kind := .reset, commands := [.reset paths states] } s := by
  rw [Edit.run, reset, run_bindState]
  have now : (get : StateM (Sitting σ) (Sitting σ)).run s = (s, s) := rfl
  rw [now]
  dsimp only
  split <;> rfl

/-! ## Work on files -/

theorem run_plan (s : Sitting σ) :
    (plan : ExceptT Failure (StateM (Sitting σ)) RenamePlan).run.run s =
      (Plan.strict s.world.present s.session.caseInsensitive s.session.items.renameItems.pairs,
        s.withItems s.session.items.withRename) := rfl

/-- The sitting after a batch of renames ran. The working set was left out of that, and
follows what ran of it. -/
def moved (c : Conduct σ) (b : Batch) (s : Sitting σ) : Sitting σ :=
  let out := (execute c false b).run s
  if out.1 then out.2.followMoves ((out.2.session.history.toUndo?.map Batch.moves).getD [])
  else out.2

/-- A plan with steps is run as one batch. -/
theorem run_commitRenames_eq (c : Conduct σ) (s : Sitting σ) :
    (commitRenames c).run.run s =
      match Plan.strict s.world.present s.session.caseInsensitive
          s.session.items.renameItems.pairs with
      | .error failure => (.error failure, s.withItems s.session.items.withRename)
      | .ok plan =>
        let s := s.withItems s.session.items.withRename
        if plan.steps.isEmpty then (.ok (plan, false), s)
        else
          let b := renameBatch plan "" s.readClock.1
          (.ok (plan, ((execute c false b).run s.readClock.2).1), moved c b s.readClock.2) := by
  rw [commitRenames, run_bind, run_plan]
  rcases Plan.strict s.world.present s.session.caseInsensitive s.session.items.renameItems.pairs
    with _ | plan
  · rfl
  · dsimp only
    rw [run_ite]
    split
    · rfl
    · rw [run_bind, run_modifyGet]
      dsimp only
      rw [run_bind, run_lift]
      dsimp only
      rw [run_ite, moved]
      split <;> rfl

theorem run_commitRenames (c : Conduct σ) (s : Sitting σ) :
    ((commitRenames c).run.run s).2 =
      match Plan.strict s.world.present s.session.caseInsensitive
          s.session.items.renameItems.pairs with
      | .error _ => s.withItems s.session.items.withRename
      | .ok plan =>
        let s := s.withItems s.session.items.withRename
        if plan.steps.isEmpty then s
        else moved c (renameBatch plan "" s.readClock.1) s.readClock.2 := by
  rw [run_commitRenames_eq]
  split
  · rfl
  · dsimp only
    split <;> rfl

/-- The states that are wanted are read if need be, and those that are modified are written
as one batch without the working set. Nothing is wanted any more then. -/
theorem run_commitTouch_eq (c : Conduct σ) (s : Sitting σ) :
    (commitTouch c).run.run s =
      let now := s.readClock.1
      let s := s.readClock.2
      match s.session.items.touchItems.run.run s.world with
      | (.error failure, world) => (.error failure, { s with world })
      | (.ok items, world) =>
        let s := { s with world }.withItems { s.session.items with touch := some items }
        if (touchBatch items now).isEmpty then (.ok false, s)
        else
          let out := (execute c false (touchBatch items now)).run s
          (.ok out.1, out.2.refresh) := by
  rw [commitTouch, run_bind, run_modifyGet]
  dsimp only
  rw [run_bind, run_touchItems]
  rcases s.readClock.2.session.items.touchItems.run.run s.readClock.2.world with ⟨_ | items, w⟩
  · rfl
  · dsimp only
    rw [run_ite]
    split <;> rfl

theorem run_commitTouch (c : Conduct σ) (s : Sitting σ) :
    ((commitTouch c).run.run s).2 =
      let now := s.readClock.1
      let s := s.readClock.2
      match s.session.items.touchItems.run.run s.world with
      | (.error _, world) => { s with world }
      | (.ok items, world) =>
        let s := { s with world }.withItems { s.session.items with touch := some items }
        if (touchBatch items now).isEmpty then s
        else ((execute c false (touchBatch items now)).run s).2.refresh := by
  rw [run_commitTouch_eq]
  dsimp only
  split
  · rfl
  · split <;> rfl

/-- The sitting after a batch was undone or redone and the working set was adjusted. -/
def turned (moves : Batch → List (Path × Path)) (out : Option Batch × History × Run.State σ Workspace)
    (s : Sitting σ) : Sitting σ :=
  match out.1 with
  | none => ended s out.2.1 out.2.2
  | some b => settle b (moves b) (ended s out.2.1 out.2.2)

/-- Adjusting the working set is all that settling does. -/
theorem settle_history (b : Batch) (moves : List (Path × Path)) (s : Sitting σ) :
    (settle b moves s).session.history = s.session.history := by
  rw [settle]
  split <;> rfl

theorem settle_world (b : Batch) (moves : List (Path × Path)) (s : Sitting σ) :
    (settle b moves s).world = s.world := by
  rw [settle]
  split <;> rfl

theorem settle_report (b : Batch) (moves : List (Path × Path)) (s : Sitting σ) :
    (settle b moves s).report = s.report := by
  rw [settle]
  split <;> rfl

theorem turned_world (moves : Batch → List (Path × Path))
    (out : Option Batch × History × Run.State σ Workspace) (s : Sitting σ) :
    (turned moves out s).world = out.2.2.place.world := by
  rw [turned]
  split
  · rfl
  · exact settle_world ..

theorem turned_report (moves : Batch → List (Path × Path))
    (out : Option Batch × History × Run.State σ Workspace) (s : Sitting σ) :
    (turned moves out s).report = out.2.2.report := by
  rw [turned]
  split
  · rfl
  · exact settle_report ..

theorem run_undo_eq (c : Conduct σ) (s : Sitting σ) :
    (undo c).run s =
      let out := s.session.history.undo c.machine c.policy.onWorkspace
        (stateOf s (some s.session.items))
      (out.1, turned Batch.movesUndone out s) := by
  have ran : (onHistory true fun h r => h.undo c.machine c.policy.onWorkspace r).run s =
      let out := s.session.history.undo c.machine c.policy.onWorkspace
        (stateOf s (some s.session.items))
      (out.1, ended s out.2.1 out.2.2) := rfl
  rw [undo, run_bindState, ran]
  dsimp only [turned]
  generalize s.session.history.undo c.machine c.policy.onWorkspace
    (stateOf s (some s.session.items)) = out
  obtain ⟨_ | b, h, r⟩ := out <;> rfl

theorem run_redo_eq (c : Conduct σ) (s : Sitting σ) :
    (redo c).run s =
      let out := s.session.history.redo c.machine c.policy.onWorkspace
        (stateOf s (some s.session.items))
      (out.1, turned Batch.moves out s) := by
  have ran : (onHistory true fun h r => h.redo c.machine c.policy.onWorkspace r).run s =
      let out := s.session.history.redo c.machine c.policy.onWorkspace
        (stateOf s (some s.session.items))
      (out.1, ended s out.2.1 out.2.2) := rfl
  rw [redo, run_bindState, ran]
  dsimp only [turned]
  generalize s.session.history.redo c.machine c.policy.onWorkspace
    (stateOf s (some s.session.items)) = out
  obtain ⟨_ | b, h, r⟩ := out <;> rfl

/-! ## Sessions that can be reached -/

/-- What can be done in a session. -/
inductive Operation where
  | edit (e : Edit)
  | commitRenames
  | commitTouch
  | undo
  | redo

/-- The sitting after an operation, whether or not it succeeded. -/
def Operation.run (o : Operation) (c : Conduct σ) (s : Sitting σ) : Sitting σ :=
  match o with
  | .edit e => e.run c s
  | .commitRenames => ((Session.commitRenames c).run.run s).2
  | .commitTouch => ((Session.commitTouch c).run.run s).2
  | .undo => ((Session.undo c).run s).2
  | .redo => ((Session.redo c).run s).2

/-- A session that comes about by operations from one that was started. Each operation has a
conduct of its own, and may find any world. -/
inductive Reached : Session → Prop
  | start (sources : List Path) (log : Path) (limit : Nat) (w : World) :
      Reached ((Session.start sources log limit).run w).1
  | operation {σ : Type} {s : Sitting σ} (before : Reached s.session) (c : Conduct σ) (o : Operation) :
      Reached (o.run c s).session

/-! ## The sources and the states that were read -/

/-- The run of a batch leaves the working set on its sources, at hand or not. -/
theorem ended_kept (c : Conduct σ) (call : History.Call) (s : Sitting σ) (withItems : Bool) :
    let out := s.session.history.call c.machine c.policy.onWorkspace
      (stateOf s (if withItems then some s.session.items else none)) call
    s.session.items.Kept (ended s out.1 out.2).session.items := by
  have kept := c.run_kept (s.session.history.running call).1 (s.session.history.running call).2
    (stateOf s (if withItems then some s.session.items else none))
  rw [← History.call_place] at kept
  dsimp only [ended, after]
  generalize (s.session.history.call c.machine c.policy.onWorkspace
    (stateOf s (if withItems then some s.session.items else none)) call).2.place = place at kept ⊢
  obtain ⟨w, items⟩ := place
  cases withItems with
  | true =>
      cases kept with
      | some kept => exact kept
  | false =>
      cases kept with
      | none => exact .refl _

theorem execute_kept (c : Conduct σ) (withItems : Bool) (b : Batch) (s : Sitting σ) :
    s.session.items.Kept ((execute c withItems b).run s).2.session.items :=
  ended_kept c (.execute b) s withItems

theorem executed_kept (c : Conduct σ) (b : Batch) (s : Sitting σ) :
    s.session.items.Kept (executed c b s).session.items :=
  execute_kept c true b s

theorem Edit.run_kept (e : Edit) (c : Conduct σ) (s : Sitting σ) :
    s.session.items.Kept (e.run c s).session.items := by
  have built : ∀ s : Sitting σ, s.session.items.Kept (s.withItems s.session.items.withRename).session.items :=
    fun s => ⟨rfl, id⟩
  cases e with
  | generate g =>
      rw [run_generate]
      split
      · exact .refl _
      · dsimp only
        split
        · exact built s
        · exact (built s).trans (executed_kept c _ _)
  | setDestination source target =>
      rw [run_setDestination]
      exact (built s).trans (executed_kept c _ _)
  | restate edit =>
      rw [run_restate]
      split
      · exact .refl _
      · next items w read =>
        have kept : s.session.items.Kept { s.session.items with touch := some items } :=
          ⟨rfl, fun keyed _ same => Option.some.inj same ▸ keyed.touchItems read⟩
        dsimp only
        split
        · exact kept
        · have made := executed_kept c { kind := .restate, commands := [.restate (restatements items edit)] }
            ({ s with world := w }.withItems { s.session.items with touch := some items })
          exact kept.trans made
  | reset =>
      rw [run_reset]
      dsimp only
      split
      · exact .refl _
      · exact executed_kept c _ s

theorem keyed_ofSources (sources : List Path) : (WorkingSet.ofSources sources).Keyed := by
  intro items built
  cases built

theorem settle_keyed (b : Batch) (moves : List (Path × Path)) {s : Sitting σ}
    (keyed : s.session.items.Keyed) : (settle b moves s).session.items.Keyed := by
  rw [settle]
  split
  · exact keyed_ofSources _
  · exact keyed_ofSources _
  · exact keyed

theorem turned_keyed (moves : Batch → List (Path × Path))
    (out : Option Batch × History × Run.State σ Workspace) {s : Sitting σ}
    (keyed : (ended s out.2.1 out.2.2).session.items.Keyed) :
    (turned moves out s).session.items.Keyed := by
  rw [turned]
  split
  · exact keyed
  · exact settle_keyed _ _ keyed

theorem Operation.run_keyed (o : Operation) (c : Conduct σ) {s : Sitting σ}
    (keyed : s.session.items.Keyed) : (o.run c s).session.items.Keyed := by
  cases o with
  | edit e => exact (e.run_kept c s).keyed keyed
  | commitRenames =>
      rw [Operation.run, run_commitRenames]
      split
      · exact keyed
      · dsimp only
        split
        · exact keyed
        · rw [moved]
          split
          · exact keyed_ofSources _
          · exact (execute_kept c false _ _).keyed keyed
  | commitTouch =>
      rw [Operation.run, run_commitTouch]
      dsimp only
      split
      · exact keyed
      · next items w read =>
        split
        · exact fun _ same => Option.some.inj same ▸ keyed.touchItems read
        · exact keyed_ofSources _
  | undo =>
      rw [Operation.run, run_undo_eq]
      exact turned_keyed _ _ ((ended_kept c .undo s true).keyed keyed)
  | redo =>
      rw [Operation.run, run_redo_eq]
      exact turned_keyed _ _ ((ended_kept c .redo s true).keyed keyed)

/-- In every session the states that were read stand where they were read. -/
theorem Reached.keyed {session : Session} (reached : Reached session) : session.items.Keyed := by
  induction reached with
  | start sources log limit w => exact keyed_ofSources sources
  | operation before c o keyed => exact o.run_keyed c keyed

end Renumber.Session
