import Renumber.Proofs.Session.Undoable

/-!
# Commits of which nothing ran

Nothing of a commit runs when it fails before that, when there is nothing to do, and when
every command fails or is left out. The sources and the history are then what they were.
So is what is wanted, but for one case: wanted file states that make up a batch are
forgotten together with the wanted destinations even if nothing of the batch ran, while the
edits that expressed all these wishes can still be undone.
-/

namespace Renumber

open Outcome

theorem FileState.same_refl (state : FileState) : state.same state = true := by
  have path : state.path.same state.path = true := beq_self_eq_true _
  have itself : state.onto state.path = state := rfl
  rw [same, path, itself, beq_self_eq_true, Bool.and_self]

theorem TouchItems.Untouched.modified {items : TouchItems} (untouched : items.Untouched) :
    items.modified = [] := by
  rw [TouchItems.modified, List.filter_eq_nil_iff]
  intro item member
  obtain ⟨e, among, rfl⟩ := List.mem_map.1 member
  rw [TouchItem.isModified, untouched e among, FileState.same_refl]
  exact Bool.false_ne_true

/-- The files whose state is to change. Only states that have been read can be. -/
def WorkingSet.restated (set : WorkingSet) : List TouchItem :=
  set.touch.elim [] TouchItems.modified

/-- Reading the states that are not read yet does not make any state a wanted one. -/
theorem WorkingSet.modified_touchItems {set : WorkingSet} {items : TouchItems} {w w' : World}
    (read : set.touchItems.run.run w = (.ok items, w')) : items.modified = set.restated := by
  rw [WorkingSet.touchItems] at read
  rw [WorkingSet.restated]
  split at read
  · next built =>
    cases read
    rw [built]
    rfl
  · next unread =>
    rw [unread, (TouchItems.read_ok read).2.modified]
    rfl

/-- A working set for which nothing is built wants nothing any more. -/
theorem WorkingSet.not_restores_ofSources {set : WorkingSet} {sources : List Path}
    (restated : set.restated ≠ []) : ¬Wishes.Restores (ofSources sources).wishes set.wishes := by
  intro restores
  cases built : set.touch with
  | none => exact restated (by rw [WorkingSet.restated, built]; rfl)
  | some items => cases restores.known items built

/-- A history is left alone by a batch of which nothing ran. -/
theorem History.execute_idle {σ ω : Type} {h : History} {m : Machine ω} {p : Policy σ ω} {b : Batch}
    {r : Run.State σ ω} (idle : (h.execute m p b r).1 = false) : (h.execute m p b r).2.1 = h := by
  rw [History.execute] at idle ⊢
  generalize b.execute m p r = out at idle ⊢
  obtain ⟨_ | part, r'⟩ := out
  · rfl
  · cases idle

namespace Session

variable {σ : Type}

/-- A run that does not have the working set at hand leaves it as it is. -/
theorem execute_aside (c : Conduct σ) (b : Batch) (s : Sitting σ) :
    ((execute c false b).run s).2.session.items = s.session.items := by
  have kept := c.run_kept false b.commands (stateOf s none)
  have place := s.session.history.call_place c.machine c.policy.onWorkspace (stateOf s none) (.execute b)
  rw [run_execute]
  dsimp only [ended, after]
  rw [History.running] at place
  rw [← place, History.call] at kept
  rw [if_neg Bool.false_ne_true]
  generalize (s.session.history.execute c.machine c.policy.onWorkspace b (stateOf s none)).2.2.place =
    ws at kept ⊢
  obtain ⟨w, items⟩ := ws
  cases kept
  rfl

/-- A session with the wishes and the history that it had. File states may have been read
since, and destinations built. -/
structure Unchanged (now before : Session) : Prop where
  wishes : Wishes.Restores now.items.wishes before.items.wishes
  history : now.history = before.history

/-- The two kinds of wishes that are carried out. -/
inductive Commit where
  | renames
  | touch
  deriving DecidableEq

namespace Commit

/-- Carry out wishes. What comes back tells whether anything ran. -/
def run (commit : Commit) (c : Conduct σ) (s : Sitting σ) : Except Failure Bool × Sitting σ :=
  match commit with
  | renames =>
    let (result, s) := (commitRenames c).run.run s
    (result.map Prod.snd, s)
  | touch => (commitTouch c).run.run s

/-- The commit succeeded and something ran. -/
def ran (commit : Commit) (c : Conduct σ) (s : Sitting σ) : Bool :=
  match (commit.run c s).1 with
  | .ok ran => ran
  | .error _ => false

theorem run_renames (c : Conduct σ) (s : Sitting σ) :
    renames.run c s =
      let built := s.withItems s.session.items.withRename
      match Plan.strict s.world.present s.session.caseInsensitive
          s.session.items.renameItems.pairs with
      | .error failure => (.error failure, built)
      | .ok plan =>
        if plan.steps.isEmpty then (.ok false, built)
        else
          let b := renameBatch plan "" built.readClock.1
          (.ok ((execute c false b).run built.readClock.2).1, moved c b built.readClock.2) := by
  rw [run, run_commitRenames_eq]
  rcases Plan.strict s.world.present s.session.caseInsensitive s.session.items.renameItems.pairs
    with _ | plan
  · rfl
  · dsimp only
    cases plan.steps.isEmpty <;> rfl

/-- Renames of which none ran leave everything as it was. -/
theorem renames_idle {c : Conduct σ} {s : Sitting σ} (idle : renames.ran c s = false) :
    (renames.run c s).2.session.Unchanged s.session := by
  -- building the destinations is no change of them
  have built : Wishes.Restores s.session.items.withRename.wishes s.session.items.wishes :=
    .refl s.session.items.wishes
  rw [ran] at idle
  rw [run_renames] at idle ⊢
  dsimp only at idle ⊢
  generalize Plan.strict s.world.present s.session.caseInsensitive
    s.session.items.renameItems.pairs = planned at idle ⊢
  obtain failure | plan := planned
  · exact ⟨built, rfl⟩
  by_cases no_step : plan.steps.isEmpty = true
  · dsimp only
    rw [if_pos no_step]
    exact ⟨built, rfl⟩
  · dsimp only at idle ⊢
    rw [if_neg no_step] at idle ⊢
    generalize renameBatch plan "" _ = b at idle ⊢
    generalize at_work : (s.withItems s.session.items.withRename).readClock.2 = t at idle ⊢
    have none_ran : ((execute c false b).run t).1 = false := idle
    have items := execute_aside c b t
    have history : ((execute c false b).run t).2.session.history = t.session.history :=
      History.execute_idle none_ran
    rw [moved, none_ran, if_neg Bool.false_ne_true]
    subst at_work
    exact ⟨items ▸ built, history⟩

/-- A touch commit of which nothing ran leaves the sources and the history. It forgets what
is wanted exactly if it had states to write. -/
theorem touch_idle {c : Conduct σ} {s : Sitting σ} (idle : touch.ran c s = false) :
    (touch.run c s).2.session.history = s.session.history ∧
      (touch.run c s).2.session.items.sources = s.session.items.sources ∧
      (Wishes.Restores (touch.run c s).2.session.items.wishes s.session.items.wishes ↔
        s.session.items.restated = []) := by
  rw [ran] at idle
  rw [run, run_commitTouch_eq] at idle ⊢
  dsimp only at idle ⊢
  have session : s.readClock.2.session = s.session := rfl
  generalize s.readClock.1 = now at idle ⊢
  generalize s.readClock.2 = t at idle session ⊢
  rw [← session]
  generalize read : t.session.items.touchItems.run.run t.world = out at idle ⊢
  obtain ⟨failure | items, w⟩ := out
  · -- only states that are still to be read can fail to be
    have unread : t.session.items.restated = [] := by
      cases built : t.session.items.touch with
      | none => rw [WorkingSet.restated, built]; rfl
      | some items => rw [WorkingSet.touchItems, built] at read; cases read
    exact ⟨rfl, rfl, fun _ => unread, fun _ => .refl _⟩
  · have modified := WorkingSet.modified_touchItems read
    have batch : (touchBatch items now).isEmpty = true ↔ t.session.items.restated = [] := by
      rw [Batch.isEmpty, touchBatch, List.isEmpty_iff, List.map_eq_nil_iff, modified]
    dsimp only at idle ⊢
    by_cases nothing_to_do : (touchBatch items now).isEmpty = true
    · rw [if_pos nothing_to_do]
      exact ⟨rfl, rfl, fun _ => batch.1 nothing_to_do, fun _ => restores_of_read read⟩
    · rw [if_neg nothing_to_do] at idle ⊢
      generalize at_work : ({ t with world := w }.withItems
        { t.session.items with touch := some items } : Sitting σ) = u at idle ⊢
      generalize touchBatch items now = b at nothing_to_do batch idle ⊢
      have aside := execute_aside c b u
      have history : ((execute c false b).run u).2.session.history = u.session.history :=
        History.execute_idle idle
      have sources : u.session.items.sources = t.session.items.sources := by
        rw [← at_work]
        rfl
      refine ⟨history.trans (by rw [← at_work]; rfl), ?_, fun restores => ?_, fun unwanted => ?_⟩
      · exact (congrArg WorkingSet.sources aside).trans sources
      · exact absurd restores (WorkingSet.not_restores_ofSources (mt batch.2 nothing_to_do))
      · exact absurd (batch.2 unwanted) nothing_to_do

/-- A commit of which nothing ran leaves the sources and the history as they were. It leaves
the wishes exactly if there are no file states that it is to write. -/
theorem unchanged_iff {commit : Commit} {c : Conduct σ} {s : Sitting σ}
    (idle : commit.ran c s = false) :
    (commit.run c s).2.session.history = s.session.history ∧
      (commit.run c s).2.session.items.sources = s.session.items.sources ∧
      ((commit.run c s).2.session.Unchanged s.session ↔
        (commit = touch → s.session.items.restated = [])) := by
  cases commit with
  | renames =>
      have unchanged := renames_idle idle
      refine ⟨unchanged.history, unchanged.wishes.sources, fun _ other => ?_, fun _ => unchanged⟩
      cases other
  | touch =>
      obtain ⟨history, sources, wishes⟩ := touch_idle idle
      refine ⟨history, sources, fun unchanged _ => wishes.1 unchanged.wishes, fun unwanted => ?_⟩
      exact ⟨wishes.2 (unwanted rfl), history⟩

/-- A file is to get another name, both files are to be read-only, and the user wants to
stop. -/
def interruptedSitting : Sitting Unit :=
  let lock : FileState → FileState :=
    fun state => { state with attributes := state.attributes.set Attributes.readonlyFlag true }
  let named := Edit.run (.setDestination (.ofString "/w/a") (.ofString "/w/x")) .plain sampleSitting
  let locked := Edit.run (.restate fun _ => lock) .plain named
  { locked with world := { locked.world with interrupt := some 0 } }

/-- The user's wish to stop comes before anything ran. Renames then leave the session as it was,
and writing the states does not. -/
theorem unchanged_iff_interrupted :
    let c : Conduct Unit := { policy := .fixed false, heedsStop := true }
    (renames.run c interruptedSitting).2.session.Unchanged interruptedSitting.session ∧
      ¬(touch.run c interruptedSitting).2.session.Unchanged interruptedSitting.session := by
  intro c
  have renames_idle : renames.ran c interruptedSitting = false := by decide +kernel
  have touch_idle : touch.ran c interruptedSitting = false := by decide +kernel
  have some_state : interruptedSitting.session.items.restated ≠ [] := by decide +kernel
  refine ⟨(unchanged_iff renames_idle).2.2.2 nofun, fun unchanged => ?_⟩
  exact some_state ((unchanged_iff touch_idle).2.2.1 unchanged rfl)

/-- So a commit of which nothing ran does not always leave the session as it was. -/
theorem not_unchanged_interrupted :
    ¬∀ (commit : Commit) (c : Conduct Unit) (s : Sitting Unit), commit.ran c s = false →
      (commit.run c s).2.session.Unchanged s.session := by
  intro always
  let c : Conduct Unit := { policy := .fixed false, heedsStop := true }
  have idle : touch.ran c interruptedSitting = false := by decide +kernel
  have forgotten : (touch.run c interruptedSitting).2.session.items.renameItems.entries ≠
      interruptedSitting.session.items.renameItems.entries := by
    decide +kernel
  exact forgotten (congrArg PathMap.entries (always touch c interruptedSitting idle).wishes.paths)

end Commit

end Session

end Renumber
