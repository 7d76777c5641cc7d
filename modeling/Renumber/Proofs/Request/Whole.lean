import Renumber.Proofs.Request.Begin
import Renumber.Proofs.Request.Rename
import Renumber.Proofs.Request.Turns

/-!
# Requests that run as a whole

Where the paths of a request to rename have places of their own, away from the logs, and anything
runs at all, all of it runs: the plan that was made before the log was opened is made again, every
step of it succeeds, and the batch stands last in the history that is kept.
-/

namespace Renumber

open Disk (addressOf)
open Outcome
open Surroundings
open UndoLog (EndsWith)
open World (Tends)

variable {σ : Type} {env : Surroundings σ}

namespace History

variable {ω : Type} {m : Machine ω} {p : Policy σ ω} {h : History} {b : Batch}
  {r r' : Run.State σ ω}

/-- A batch that runs as a whole is the newest one, and nothing is left to redo. -/
theorem execute_newest (h : History) (whole : b.execute m p r = (some b, r')) :
    ∃ h' rest, h.execute m p b r = (true, h', r') ∧ h'.done = b :: rest ∧ h'.undone = [] := by
  obtain ⟨rest, taken⟩ := take_cons_of_limit (h.settle b).limit b (h.settle b).done
  let h' : History := prune { h.settle b with done := b :: (h.settle b).done, undone := [] }
  refine ⟨h', rest, ?_, taken, rfl⟩
  rw [execute, whole]

end History

namespace Session

variable {plan : RenamePlan}

theorem renameBatch_moves (plan : RenamePlan) (tag : String) (now : Time.Instant) :
    (renameBatch plan tag now).moves = plan.moves := by
  rw [Batch.moves, renameBatch, List.filterMap_map]
  exact congrFun List.filterMap_eq_map plan.steps

/-- The batch of a plan renames between the paths of the plan. -/
theorem renameBatch_renames {kind : Path → Prop} (each : ∀ p ∈ plan.paths, kind p) (tag : String)
    (now : Time.Instant) : (renameBatch plan tag now).Renames kind where
  kind := rfl
  commands c member := by
    obtain ⟨s, in_plan, rfl⟩ := List.mem_map.1 member
    obtain ⟨source, target⟩ := RenamePlan.mem_paths in_plan
    exact ⟨each _ source, each _ target⟩

end Session

namespace Surroundings

variable {u v w : World} {p : Path}

/-- Tending logs does not change what is at a path away from them. -/
theorem Clear.present_eq (clear : env.Clear u p)
    (tends : Tends (env.logPlaces u.cwd) (env.logWays u.cwd) u v) : v.present p = u.present p := by
  obtain ⟨loc, site, off⟩ := clear
  have still := site.tends tends off
  have aside : loc ∉ env.logPlaces u.cwd := fun inside => off (env.logPlaces_subset u.cwd _ inside)
  have files : v.files loc = u.files loc := tends.disk.files loc aside
  rw [World.present_of_flatAt still.flatAt still.place,
    World.present_of_flatAt site.flatAt site.place, files]

/-- A run that ended kept its history. -/
theorem endRun_ok {s s' : Sitting σ} {report : Report}
    (ended : endRun.run.run s = (.ok report, s')) :
    report = s.report ∧ s.session.save.run.run s.world = (.ok (), s'.world) := by
  rw [run_endRun] at ended
  generalize s.session.save.run.run s.world = out at ended ⊢
  obtain ⟨fault | ⟨⟩, w⟩ := out
  · cases ended
  · cases ended
    exact ⟨rfl, rfl⟩

end Surroundings

namespace RenameRequest

/-- The paths that a request is about: its sources, their destinations, and the names where files
step aside. -/
def paths (req : RenameRequest) (intent : Intent) : List Path :=
  req.sources ++ intent.pairs.entries.map Prod.snd ++ intent.plan.paths

/-- A request suits a world when the paths that it is about have places of their own, which are not
on the way to a log, its sources are files, and the history can be kept and read. -/
structure Suits (env : Surroundings σ) (req : RenameRequest) (intent : Intent) (w : World) : Prop where
  plain : w.disk.Plain
  working : w.disk.shape? w.cwd = some .folder
  flat : w.Flat (req.paths intent)
  there : ∀ p ∈ req.sources, w.present p = true
  text : ∀ p ∈ req.sources ++ intent.pairs.entries.map Prod.snd, p.IsText
  away : ∀ p ∈ req.paths intent, w.locationOf p ∉ env.logWays w.cwd
  room : UndoLog.HasRoom env.undoLog
  readable : w.disk.Allows Disk.ownerRead (addressOf w.cwd env.undoLog)
  lone : ∀ p, p = env.undoLog ∨ env.operationLog = some p → w.disk.Lone (addressOf w.cwd p)

variable {req : RenameRequest} {intent : Intent} {scene scene' : Scene σ} {answer : RenameAnswer}
  {report : Report}

theorem Suits.clear {w : World} {p : Path} (suits : Suits env req intent w)
    (member : p ∈ req.paths intent) : env.Clear w p :=
  ⟨_, suits.flat.site member, suits.away p member⟩

theorem mem_paths_of_plan {p : Path} (member : p ∈ intent.plan.paths) : p ∈ req.paths intent :=
  List.mem_append_right _ member

theorem Suits.clear_moves {w : World} {m : Path × Path} (suits : Suits env req intent w)
    (member : m ∈ intent.plan.moves) : env.Clear w m.1 ∧ env.Clear w m.2 := by
  obtain ⟨s, in_plan, rfl⟩ := List.mem_map.1 member
  obtain ⟨source, target⟩ := RenamePlan.mem_paths in_plan
  exact ⟨suits.clear (mem_paths_of_plan source), suits.clear (mem_paths_of_plan target)⟩

/-- When nothing was taken away and only logs were tended, the same plan is made again. -/
theorem Suits.plan_again {u v : World} {plan : RenamePlan} (suits : Suits env req intent u)
    (planned : Plan.strict u.present false intent.pairs = .ok intent.plan)
    (more : ∀ p, u.present p = true → v.present p = true)
    (tends : Tends (env.logPlaces u.cwd) (env.logWays u.cwd) u v)
    (planned' : Plan.strict v.present false intent.pairs = .ok plan) : plan = intent.plan := by
  have made := Plan.strict_congr planned more fun p member =>
    (suits.clear (mem_paths_of_plan member)).present_eq tends
  exact Except.ok.inj (planned'.symm.trans made)

/-- A request that ran something carried out what it intends, between the beginning and the end of
its run. -/
theorem run_commits (intended : ((req.intend env).run.run scene).1 = .ok intent)
    (suits : Suits env req intent scene.world)
    (ran : (req.run env).run.run scene = (.ok answer, scene')) (reported : answer.report = some report)
    (some_ran : 0 < report.executed) :
    answer.renames = req.shown intent.pairs ∧ intent.plan.steps ≠ [] ∧
      ∃ (c : Conduct σ) (s : Sitting σ) (items : WorkingSet) (s' : Sitting σ),
        s.session.log = env.undoLog ∧ s.report = {} ∧
        Tends (env.logPlaces scene.world.cwd) (env.logWays scene.world.cwd) scene.world s.world ∧
        env.Opened c s.world ∧ env.LogStands scene.world.cwd s.world ∧
        (let out := s.session.history.execute c.machine c.policy.onWorkspace
          (Session.renameBatch intent.plan "" s.readClock.1) (Session.stateOf s.readClock.2 none)
        endRun.run.run (Session.after s items out.2.1 out.2.2) = (.ok report, s')) ∧
        scene' = leave s' := by
  obtain ⟨g, numbered, s, plan, generated, -, intended', shown, message, c, s₁, result, s₂, s₃, begun,
    committed, ended, rfl⟩ := run_ok ran reported
  obtain rfl : _ = intent := Except.ok.inj (intended'.symm.trans intended)
  have wishes := Session.generate_rewished generated
  obtain ⟨planned, of_sources⟩ := intend_ok intended
  let u := scene.world
  -- The log of the run is opened on the world as the history was read from it.
  have opens : Tends (env.logPlaces u.cwd) (env.logWays u.cwd) u s.world := by
    rw [wishes.world]
    exact (Request.opening_tends env req.sources scene suits.plain).mono (fun _ inside => inside)
      (by simp)
  have present : s.world.present = u.present := by
    rw [wishes.world, present_opening]
  have working : s.world.disk.shape? s.world.cwd = some .folder := by
    rw [opens.cwd]
    exact opens.disk.keeps.folder _ suits.working
  have lone : ∀ p, env.operationLog = some p → s.world.disk.Lone (addressOf s.world.cwd p) := by
    intro p own
    rw [opens.cwd]
    exact opens.disk.lone _ (suits.lone p (.inr own))
  obtain ⟨same, begins, within, opened, log⟩ :=
    beginRun_ok (s := s.withItems s.session.items.withRename) opens.disk.plain working lone begun
  have cwd : (s.withItems s.session.items.withRename).world.cwd = u.cwd := opens.cwd
  rw [cwd] at begins log
  have tends : Tends (env.logPlaces u.cwd) (env.logWays u.cwd) u s₁.world := opens.trans begins
  -- Behind the log the same plan is made.
  obtain ⟨plan', planned', outcome⟩ := Session.commitRenames_ok committed
  have again : plan' = plan := by
    have session : s₁.session = (s.withItems s.session.items.withRename).session := by
      rw [same]
    have sensitive : s₁.session.caseInsensitive = false := by
      rw [session]
      exact wishes.caseInsensitive
    rw [sensitive, session] at planned'
    refine suits.plan_again planned (fun p there => within.present ?_) tends planned'
    rw [← present] at there
    exact there
  subst again
  obtain ⟨-, idle⟩ | ⟨some_step, items, done⟩ := outcome
  · have kept := (endRun_ok ended).1
    rw [idle, same] at kept
    rw [kept] at some_ran
    cases some_ran
  · subst done
    refine ⟨shown, some_step, c, s₁, items, s₃, ?_, ?_, tends, opened, log, ended, rfl⟩
    · rw [same]
      exact wishes.log
    · rw [same]

/-- A request that ran something ran its whole plan as one batch, which is the newest one. -/
theorem run_whole (intended : ((req.intend env).run.run scene).1 = .ok intent)
    (suits : Suits env req intent scene.world)
    (unstopped : env.heedsStop = false ∨ scene.world.interrupt = none)
    (ran : (req.run env).run.run scene = (.ok answer, scene')) (reported : answer.report = some report)
    (some_ran : 0 < report.executed) :
    answer.renames = req.shown intent.pairs ∧ report.isComplete = true ∧
      ∃ b : Batch, b.moves = intent.plan.moves ∧ b.Movable env scene'.world ∧
        World.Shifts (env.logPlaces scene.world.cwd) scene.world.place? b.moves scene.world
          scene'.world ∧
        env.Ready scene'.world ∧ env.Steady scene.world scene'.world ∧
        ∃ content, scene'.world.Holds (addressOf scene.world.cwd env.undoLog) content ∧
          EndsWith content b := by
  obtain ⟨shown, some_step, c, s, items, s', log_path, fresh, tends, opened, log, ended, rfl⟩ :=
    run_commits intended suits ran reported some_ran
  obtain ⟨planned, of_sources⟩ := intend_ok intended
  let u := scene.world
  let v := s.readClock.2.world
  let b := Session.renameBatch intent.plan "" s.readClock.1
  have begun : Tends (env.logPlaces u.cwd) (env.logWays u.cwd) u v :=
    tends.trans (.of_disk_eq tends.disk.plain rfl rfl rfl)
  have opened : env.Opened c v := ⟨opened.heeds, opened.log⟩
  have steady : env.Steady u v := steady_of_tends begun
  have clear : ∀ p ∈ intent.plan.paths, env.Clear u p :=
    fun p member => suits.clear (mem_paths_of_plan member)
  have moves : b.moves = intent.plan.moves := Session.renameBatch_moves _ _ _
  have clear_moves : ∀ m ∈ b.moves, env.Clear u m.1 ∧ env.Clear u m.2 := by
    rw [moves]
    exact fun m member => suits.clear_moves member
  -- The plan is possible in the first world, hence where the batch runs.
  obtain ⟨files', moved, -⟩ := Plan.exists_run_moves planned
    (suits.flat.mono fun p member => mem_paths_of_plan member)
    fun m member => suits.there _ (of_sources m (List.mem_of_mem_filter member))
  rw [← moves] at moved
  obtain ⟨after, run, run_here⟩ := exists_run_of_tends begun clear_moves moved
  have free : c.Free (openFiles c) v := by
    refine opened.free ?_
    rw [begun.interrupt]
    exact unstopped
  have some_command : b.commands ≠ [] := mt List.map_eq_nil_iff.1 some_step
  obtain ⟨ws, stands, -, whole⟩ := Batch.execute_whole (b := b)
    (r := Session.stateOf s.readClock.2 none) free begun.disk.plain.tree
    (Session.renameBatch_renames (fun p member => (steady.2 p (clear p member)).1.flatAt) _ _)
    some_command run_here
  obtain ⟨h, rest, executed, newest, none_undone⟩ :=
    History.execute_newest s.session.history whole
  rw [executed] at ended
  obtain ⟨account, saved⟩ := endRun_ok ended
  have kept : (h.save env.undoLog).run.run ws.world = (.ok (), s'.world) := by
    rw [← log_path]
    exact saved
  obtain ⟨shifts, ready, steady', holds, written⟩ := ready_of_saved suits.working suits.room
    suits.readable (suits.lone _ (.inl rfl)) begun opened log stands run clear_moves none_undone kept
  -- What was written to the log ends with the batch, so its paths are text.
  have renames : b.Renames (env.Clear s'.world) :=
    Session.renameBatch_renames (fun p member => (steady'.2 p (clear p member)).1) _ _
  have is_written : UndoLog.isWritten b = true := by
    rw [UndoLog.isWritten, renames.isRecorded, Batch.isEmpty]
    simpa using some_command
  rw [newest, List.reverse_cons] at holds written
  have writable : UndoLog.CanWrite b.commands :=
    (UndoLog.write_of_fault written).2 b (List.mem_filter.2 ⟨by simp, is_written⟩)
  refine ⟨shown, ?_, b, moves, ⟨renames, renames.canWrite_iff.1 writable, some_command⟩, shifts, ready,
    steady', _, holds, UndoLog.endsWith_write is_written written⟩
  have total : report = s.report.afterAll b.size := account
  rw [total, fresh]
  exact beq_self_eq_true _

end RenameRequest

end Renumber
