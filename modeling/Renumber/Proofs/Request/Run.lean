import Renumber.Proofs.Session.Operations
import Renumber.Request.Step

/-!
# The parts of a request

A request opens a session on the history on disk, opens its log, works on the session, and
keeps the history. What each part does to the session and to the world is said here, so
that requests need not be taken apart again.
-/

namespace Renumber

open Outcome

variable {σ α : Type}

namespace Session

theorem settle_after (b : Batch) (moves : List (Path × Path)) (s : Sitting σ) (items : WorkingSet)
    (h : History) (r : Run.State σ Workspace) :
    ∃ items', settle b moves (after s items h r) = after s items' h r := by
  rw [settle]
  split <;> exact ⟨_, rfl⟩

theorem turned_after (moves : Batch → List (Path × Path))
    (out : Option Batch × History × Run.State σ Workspace) (s : Sitting σ) :
    ∃ items, turned moves out s = after s items out.2.1 out.2.2 := by
  rw [turned]
  split
  · exact ⟨_, rfl⟩
  · exact settle_after _ _ s _ _ _

theorem run_undo (c : Conduct σ) (s : Sitting σ) :
    ∃ items, (undo c).run s =
      let out := s.session.history.undo c.machine c.policy.onWorkspace
        (stateOf s (some s.session.items))
      (out.1, after s items out.2.1 out.2.2) := by
  obtain ⟨items, same⟩ := turned_after Batch.movesUndone
    (s.session.history.undo c.machine c.policy.onWorkspace (stateOf s (some s.session.items))) s
  refine ⟨items, ?_⟩
  rw [run_undo_eq]
  dsimp only
  rw [same]

theorem run_redo (c : Conduct σ) (s : Sitting σ) :
    ∃ items, (redo c).run s =
      let out := s.session.history.redo c.machine c.policy.onWorkspace
        (stateOf s (some s.session.items))
      (out.1, after s items out.2.1 out.2.2) := by
  obtain ⟨items, same⟩ := turned_after Batch.moves
    (s.session.history.redo c.machine c.policy.onWorkspace (stateOf s (some s.session.items))) s
  refine ⟨items, ?_⟩
  rw [run_redo_eq]
  dsimp only
  rw [same]

end Session

namespace Surroundings

variable {env : Surroundings σ}

/-- The session that a request on some sources opens. -/
def opening (env : Surroundings σ) (sources : List Path) (scene : Scene σ) : Sitting σ where
  session := ⟨.ofSources sources,
    ((History.load env.undoLog env.settings.undo.limit).run scene.world).1, env.undoLog, false⟩
  world := ((History.load env.undoLog env.settings.undo.limit).run scene.world).2
  answers := scene.answers

/-- The scene that a session leaves. -/
def leave (s : Sitting σ) : Scene σ :=
  ⟨s.world, s.answers⟩

theorem run_inSession (env : Surroundings σ) (sources : List Path) (work : Work σ α)
    (scene : Scene σ) :
    (env.inSession sources work).run.run scene =
      ((work.run.run (env.opening sources scene)).1,
        leave (work.run.run (env.opening sources scene)).2) := rfl

theorem run_onWorld (act : Act DiskFault α) (why : DiskFault → RequestFailure) (s : Sitting σ) :
    (onWorld act why).run.run s =
      ((act.run.run s.world).1.mapError why, { s with world := (act.run.run s.world).2 }) := rfl

/-- A run begins with the log open and an entry in it. -/
theorem run_beginRun (env : Surroundings σ) (message : String) (s : Sitting σ) :
    (env.beginRun message).run.run s = match env.openLog.run.run s with
      | (.error failure, s') => (.error failure, s')
      | (.ok log, s') =>
        (.ok ⟨env.policy, log, env.heedsStop⟩,
          { s' with
            world := Conduct.note ⟨env.policy, log, env.heedsStop⟩ message s'.world
            report := {} }) := by
  rw [beginRun, run_bind]
  rcases env.openLog.run.run s with ⟨_ | log, s'⟩
  · rfl
  · rfl

theorem run_endRun (s : Sitting σ) :
    (endRun : Work σ Report).run.run s =
      (((s.session.save.run.run s.world).1.map fun _ => s.report).mapError (.undoLog s.session.log),
        { s with world := (s.session.save.run.run s.world).2 }) := by
  rw [endRun, run_bind, run_get]
  simp only
  rw [run_bind, run_onWorld]
  rcases s.session.save.run.run s.world with ⟨_ | _, w⟩ <;> rfl

end Surroundings

namespace Request

open Surroundings (leave)

/-- Undoing runs the newest done batch backward between the beginning and the end of a
run. -/
theorem run_undo {env : Surroundings σ} {scene : Scene σ} {b : Batch} {s : Sitting σ}
    {c : Conduct σ} (newest : (env.opening [] scene).session.history.toUndo? = some b)
    (begun : (env.beginRun ("Undoing: " ++ b.description)).run.run (env.opening [] scene) =
      (.ok c, s)) :
    (undo env).run.run scene =
      let ran := (Session.undo c).run s
      let out := Surroundings.endRun.run.run ran.2
      (out.1.map (stepAnswer b ran.1), leave out.2) := by
  rw [undo, Surroundings.run_inSession, run_bind, run_get]
  simp only [newest]
  rw [run_bind, begun]
  simp only
  rw [run_bind, run_lift]
  simp only
  rw [run_bind]
  rcases Surroundings.endRun.run.run ((Session.undo c).run s).2 with ⟨_ | report, s'⟩ <;> rfl

/-- Redoing runs the newest undone batch again between the beginning and the end of a
run. -/
theorem run_redo {env : Surroundings σ} {scene : Scene σ} {b : Batch} {s : Sitting σ}
    {c : Conduct σ} (newest : (env.opening [] scene).session.history.toRedo? = some b)
    (begun : (env.beginRun ("Redoing: " ++ b.description)).run.run (env.opening [] scene) =
      (.ok c, s)) :
    (redo env).run.run scene =
      let ran := (Session.redo c).run s
      let out := Surroundings.endRun.run.run ran.2
      (out.1.map (stepAnswer b ran.1), leave out.2) := by
  rw [redo, Surroundings.run_inSession, run_bind, run_get]
  simp only [newest]
  rw [run_bind, begun]
  simp only
  rw [run_bind, run_lift]
  simp only
  rw [run_bind]
  rcases Surroundings.endRun.run.run ((Session.redo c).run s).2 with ⟨_ | report, s'⟩ <;> rfl

end Request

end Renumber
