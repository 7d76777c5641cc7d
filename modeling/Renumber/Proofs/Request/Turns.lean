import Renumber.Proofs.History.Linear
import Renumber.Proofs.Request.Ready
import Renumber.Proofs.UndoLog.Unfinished

/-!
# Undoing and redoing across sessions

Each request loads the history anew. In a world that is ready, a batch of renames that
stands last in a log is undone or redone as a whole when its moves are possible, whatever
the policy is; then it stands last in the other log, and the world is ready again.
-/

namespace Renumber

open Disk (addressOf)
open Outcome
open Surroundings
open UndoLog (EndsWith asRead)
open World (Tends)

variable {σ : Type} {env : Surroundings σ} {scene : Scene σ} {b : Batch}

/-- A batch of renames between paths that are text and away from the logs. -/
structure Batch.Movable (b : Batch) (env : Surroundings σ) (w : World) : Prop where
  clear : b.Renames (env.Clear w)
  text : b.Renames Path.IsText
  some_command : b.commands ≠ []

namespace Request

theorem opening_tends (env : Surroundings σ) (sources : List Path) (scene : Scene σ)
    (plain : scene.world.disk.Plain) :
    Tends (env.logPlaces scene.world.cwd) ∅ scene.world (env.opening sources scene).world := by
  obtain ⟨notices, same⟩ :=
    History.load_world env.undoLog env.settings.undo.limit scene.world
  have world : (env.opening sources scene).world = { scene.world with notices } := same
  rw [world]
  exact .of_disk_eq plain rfl rfl rfl

/-- How a run begins that is about some moves: they are possible then as well. -/
structure Begun (env : Surroundings σ) (u : World) (moves : List (Path × Path)) (c : Conduct σ)
    (w : World) (after : FileMap) : Prop where
  tends : Tends (env.logPlaces u.cwd) ∅ u w
  opened : env.Opened c w
  free : c.Free (openFiles c) w
  flat : ∀ p, env.Clear u p → w.FlatAt p
  run : FileMap.run u.place? moves w.files = some after
  run_here : FileMap.run w.place? moves w.files = some after

theorem begun_of_ready (sources : List Path) (message : String) {moves : List (Path × Path)}
    (ready : env.Ready scene.world)
    (unstopped : env.heedsStop = false ∨ scene.world.interrupt = none)
    (clear : ∀ m ∈ moves, env.Clear scene.world m.1 ∧ env.Clear scene.world m.2)
    (possible : ∃ after, FileMap.run scene.world.place? moves scene.world.files = some after) :
    ∃ c w after, (env.beginRun message).run.run (env.opening sources scene) =
        (.ok c, { env.opening sources scene with world := w, report := {} }) ∧
      Begun env scene.world moves c w after := by
  have opens := opening_tends env sources scene ready.plain
  obtain ⟨c, w, begun, begins, opened⟩ := (ready.tends opens).beginRun message
  rw [opens.cwd] at begins
  have tends := opens.trans begins
  have on_ways : Tends (env.logPlaces scene.world.cwd) (env.logWays scene.world.cwd) scene.world w :=
    tends.mono (fun _ inside => inside) (by simp)
  obtain ⟨files, moved⟩ := possible
  obtain ⟨after, run, run_here⟩ := exists_run_of_tends on_ways clear moved
  refine ⟨c, w, after, begun, tends, opened, opened.free ?_, fun p clear_p => ?_, run, run_here⟩
  · rw [tends.interrupt]
    exact unstopped
  · exact ((steady_of_tends on_ways).2 p clear_p).1.flatAt

/-- How a run ends that turned a whole batch: the history is kept, and nothing is left. -/
theorem turned_of_stands {u w : World} {moves : List (Path × Path)} {after : FileMap}
    {c : Conduct σ} {s : Sitting σ} {items : WorkingSet} {h : History} {r : Run.State σ Workspace}
    {ran : Option Batch × Sitting σ} (ready : env.Ready u) (begun : Begun env u moves c w after)
    (turned : ran = (some b, Session.after s items h r))
    (stands : World.StandsFor (openFiles c) w r.place.world after)
    (clear : ∀ m ∈ moves, env.Clear u m.1 ∧ env.Clear u m.2) (log : s.session.log = env.undoLog)
    (done : ∀ b ∈ h.done, UndoLog.CanWrite b.commands)
    (undone : ∀ b ∈ h.undone, UndoLog.CanWrite b.commands) :
    ∃ answer scene', ((endRun.run.run ran.2).1.map (stepAnswer b ran.1),
        leave (endRun.run.run ran.2).2) = (.ok answer, scene') ∧ answer.isPartial = false ∧
      World.Shifts (env.logPlaces u.cwd) u.place? moves u scene'.world ∧ env.Ready scene'.world ∧
      env.Steady u scene'.world ∧
      scene'.world.Holds (addressOf u.cwd env.undoLog)
        (Text.encode (UndoLog.write h.done.reverse).text) ∧
      (h.undone.any Batch.isRecorded = true →
        scene'.world.Holds (addressOf u.cwd (UndoLog.redoPath env.undoLog))
          (Text.encode (UndoLog.write h.undone.reverse).text)) := by
  obtain ⟨w', saved, others⟩ :=
    ready.keep begun.tends begun.opened stands begun.run clear done undone
  have kept : (Session.after s items h r).session.save.run.run r.place.world = (.ok (), w') := by
    rw [← log] at saved
    exact saved
  refine ⟨stepAnswer b (some b) r.report, ⟨w', r.answers⟩, ?_, ?_, others⟩
  · rw [turned]
    simp only
    rw [run_endRun]
    simp only [Session.after] at kept ⊢
    rw [kept]
    rfl
  · rw [stepAnswer]
    exact decide_eq_false (Nat.lt_irrefl _)

end Request

namespace History

variable {ω : Type} {m : Machine ω} {p : Policy σ ω} {h : History} {rest : List Batch}
  {r r' : Run.State σ ω}

/-- A batch that is undone as a whole goes from one stack to the other. -/
theorem undo_newest (newest : h.done = b :: rest) (done : ∀ b ∈ h.done, b.isRecorded = true)
    (undone : ∀ b ∈ h.undone, b.isRecorded = true)
    (whole : b.undo m p r = (⟨some b, none⟩, r')) :
    h.undo m p r = (some b, { h with done := rest, undone := b :: h.undone }, r') := by
  obtain ⟨stack, undone_stack, limit⟩ := h
  simp only at newest
  subst newest
  rw [undo_of_recorded limit (fun b member => done b (List.mem_cons_of_mem _ member)) undone
    (by rw [whole]; simp), whole]
  rfl

/-- A batch that is redone as a whole goes back, and the oldest done ones may be forgotten. -/
theorem redo_newest (newest : h.undone = b :: rest) (done : ∀ b ∈ h.done, b.isRecorded = true)
    (undone : ∀ b ∈ h.undone, b.isRecorded = true)
    (whole : b.redo m p r = (⟨some b, none⟩, r')) :
    h.redo m p r =
      (some b, { h with done := (b :: h.done).take (max h.limit 1), undone := rest }, r') := by
  obtain ⟨done_stack, stack, limit⟩ := h
  simp only at newest
  subst newest
  rw [redo_of_recorded limit done (fun b member => undone b (List.mem_cons_of_mem _ member))
    (by rw [whole]; simp), whole]
  rfl

end History

theorem Batch.Movable.readsBack {w : World} (movable : b.Movable env w) : UndoLog.ReadsBack b :=
  UndoLog.readsBack_of_renames movable.clear.kind movable.some_command movable.text.commands

/-- Renames can be written exactly when they are between paths that are text. -/
theorem Batch.Renames.canWrite_iff {kind : Path → Prop} (renames : b.Renames kind) :
    UndoLog.CanWrite b.commands ↔ b.Renames Path.IsText := by
  simp only [UndoLog.CanWrite, ← UndoLog.isSpelled_iff_commandText]
  constructor
  · refine fun spelled => ⟨renames.kind, fun c member => ?_⟩
    have paths := renames.commands c member
    cases c with
    | rename source target => exact spelled _ member
    | _ => exact paths.elim
  · intro texts c member
    have paths := texts.commands c member
    cases c with
    | rename source target => exact paths
    | _ => exact paths.elim

theorem Batch.Movable.canWrite {w : World} (movable : b.Movable env w) :
    UndoLog.CanWrite b.commands :=
  movable.text.canWrite_iff.2 movable.text

theorem Batch.Movable.isWritten {w : World} (movable : b.Movable env w) :
    UndoLog.isWritten b = true := by
  have some_command := movable.some_command
  rw [UndoLog.isWritten, movable.clear.isRecorded, Batch.isEmpty]
  simpa using some_command

/-- A batch comes back from a log with all its commands. -/
theorem Batch.Movable.asRead {w : World} (movable : b.Movable env w) :
    (asRead b).Movable env w where
  clear := ⟨movable.clear.kind, movable.clear.commands⟩
  text := ⟨movable.text.kind, movable.text.commands⟩
  some_command := movable.some_command

namespace Request

/-- In a ready world, with nobody to stop it, the newest batch is undone as a whole. -/
theorem undo_whole {content : List UInt8} (ready : env.Ready scene.world)
    (unstopped : env.heedsStop = false ∨ scene.world.interrupt = none)
    (holds : scene.world.Holds (addressOf scene.world.cwd env.undoLog) content)
    (ends : EndsWith content b) (movable : b.Movable env scene.world)
    (possible : ∃ after,
      FileMap.run scene.world.place? b.movesUndone scene.world.files = some after) :
    ∃ answer scene', (undo env).run.run scene = (.ok answer, scene') ∧
      answer.isPartial = false ∧
      World.Shifts (env.logPlaces scene.world.cwd) scene.world.place? b.movesUndone scene.world
        scene'.world ∧
      env.Ready scene'.world ∧ env.Steady scene.world scene'.world ∧
      ∃ content', scene'.world.Holds
        (addressOf scene.world.cwd (UndoLog.redoPath env.undoLog)) content' ∧
        EndsWith content' (asRead b) := by
  have read := movable.asRead
  obtain ⟨rest, newest⟩ := History.load_done env.settings.undo.limit
    (ready.slot _ env.undoLog_mem).place holds ready.undoable ends movable.readsBack
  have loaded := History.load_loaded env.undoLog env.settings.undo.limit scene.world
  have clear : ∀ m ∈ b.movesUndone, env.Clear scene.world m.1 ∧ env.Clear scene.world m.2 :=
    clear_back fun m member => movable.clear.of_mem_moves member
  obtain ⟨c, v, after, begun, begins⟩ := begun_of_ready [] ("Undoing: " ++ (asRead b).description)
    ready unstopped clear possible
  have opening : (env.opening [] scene).session.history =
      ((History.load env.undoLog env.settings.undo.limit).run scene.world).1 := rfl
  have toUndo : (env.opening [] scene).session.history.toUndo? = some (asRead b) := by
    rw [opening, History.toUndo?, newest]
    rfl
  rw [run_undo toUndo begun]
  -- The run undoes the batch and puts it on the other stack.
  let s : Sitting σ := { env.opening [] scene with world := v, report := {} }
  obtain ⟨ws, stands, -, undone⟩ := Batch.undo_whole (b := asRead b)
    (r := Session.stateOf s (some s.session.items)) begins.free begins.tends.disk.plain.tree
    (read.clear.mono begins.flat) read.some_command begins.run_here
  let h : History :=
    { s.session.history with done := rest, undone := asRead b :: s.session.history.undone }
  let r : Run.State σ Workspace := ⟨s.answers, ws, s.report.afterAll (asRead b).size⟩
  have turned : s.session.history.undo c.machine c.policy.onWorkspace
      (Session.stateOf s (some s.session.items)) = (some (asRead b), h, r) :=
    History.undo_newest newest (fun b member => (loaded.1 b member).recorded)
      (fun b member => (loaded.2 b member).recorded) undone
  obtain ⟨items, ran⟩ := Session.run_undo c s
  rw [turned] at ran
  have can_done : ∀ b ∈ h.done, UndoLog.CanWrite b.commands := fun b member =>
    (loaded.1 b (by rw [newest]; exact List.mem_cons_of_mem _ member)).writable
  have can_undone : ∀ b ∈ h.undone, UndoLog.CanWrite b.commands := by
    intro b member
    obtain rfl | later := List.mem_cons.1 member
    · exact read.canWrite
    · exact (loaded.2 b later).writable
  obtain ⟨answer, scene', ended, whole, shifts, ready', steady, -, holds'⟩ :=
    turned_of_stands ready begins ran stands clear rfl can_done can_undone
  have recorded : h.undone.any Batch.isRecorded = true := by
    rw [List.any_cons, read.clear.isRecorded, Bool.true_or]
  exact ⟨answer, scene', ended, whole, shifts, ready', steady, _, holds' recorded,
    UndoLog.endsWith_newest read.isWritten can_undone⟩

/-- In a ready world, with nobody to stop it, the newest undone batch is redone as a whole. -/
theorem redo_whole {content : List UInt8} (ready : env.Ready scene.world)
    (unstopped : env.heedsStop = false ∨ scene.world.interrupt = none)
    (holds : scene.world.Holds
      (addressOf scene.world.cwd (UndoLog.redoPath env.undoLog)) content)
    (ends : EndsWith content b) (movable : b.Movable env scene.world)
    (possible : ∃ after, FileMap.run scene.world.place? b.moves scene.world.files = some after) :
    ∃ answer scene', (redo env).run.run scene = (.ok answer, scene') ∧
      answer.isPartial = false ∧
      World.Shifts (env.logPlaces scene.world.cwd) scene.world.place? b.moves scene.world
        scene'.world ∧
      env.Ready scene'.world ∧ env.Steady scene.world scene'.world ∧
      ∃ content', scene'.world.Holds (addressOf scene.world.cwd env.undoLog) content' ∧
        EndsWith content' (asRead b) := by
  have read := movable.asRead
  obtain ⟨rest, newest⟩ := History.load_undone env.undoLog env.settings.undo.limit
    (ready.slot _ env.redoPath_mem).place holds ready.redoable ends movable.readsBack
  have loaded := History.load_loaded env.undoLog env.settings.undo.limit scene.world
  have clear : ∀ m ∈ b.moves, env.Clear scene.world m.1 ∧ env.Clear scene.world m.2 :=
    fun m member => movable.clear.of_mem_moves member
  obtain ⟨c, v, after, begun, begins⟩ := begun_of_ready [] ("Redoing: " ++ (asRead b).description)
    ready unstopped clear possible
  have opening : (env.opening [] scene).session.history =
      ((History.load env.undoLog env.settings.undo.limit).run scene.world).1 := rfl
  have toRedo : (env.opening [] scene).session.history.toRedo? = some (asRead b) := by
    rw [opening, History.toRedo?, newest]
    rfl
  rw [run_redo toRedo begun]
  -- The run redoes the batch and puts it back on the first stack.
  let s : Sitting σ := { env.opening [] scene with world := v, report := {} }
  obtain ⟨ws, stands, -, redone⟩ := Batch.redo_whole (b := asRead b)
    (r := Session.stateOf s (some s.session.items)) begins.free begins.tends.disk.plain.tree
    (read.clear.mono begins.flat) read.some_command begins.run_here
  obtain ⟨kept, taken⟩ := History.take_cons_of_limit s.session.history.limit (asRead b)
    s.session.history.done
  let h : History := { s.session.history with done := asRead b :: kept, undone := rest }
  let r : Run.State σ Workspace := ⟨s.answers, ws, s.report.afterAll (asRead b).size⟩
  have turned : s.session.history.redo c.machine c.policy.onWorkspace
      (Session.stateOf s (some s.session.items)) = (some (asRead b), h, r) := by
    have step := History.redo_newest newest (fun b member => (loaded.1 b member).recorded)
      (fun b member => (loaded.2 b member).recorded) redone
    rw [← opening] at step
    refine step.trans ?_
    rw [taken]
    rfl
  obtain ⟨items, ran⟩ := Session.run_redo c s
  rw [turned] at ran
  have can_done : ∀ b ∈ h.done, UndoLog.CanWrite b.commands := by
    intro b member
    have kept_done : h.done = asRead _ :: kept := rfl
    rw [kept_done, ← taken] at member
    obtain rfl | earlier := List.mem_cons.1 (List.mem_of_mem_take member)
    · exact read.canWrite
    · exact (loaded.1 b earlier).writable
  have can_undone : ∀ b ∈ h.undone, UndoLog.CanWrite b.commands := fun b member =>
    (loaded.2 b (by rw [newest]; exact List.mem_cons_of_mem _ member)).writable
  obtain ⟨answer, scene', ended, whole, shifts, ready', steady, holds', -⟩ :=
    turned_of_stands ready begins ran stands clear rfl can_done can_undone
  exact ⟨answer, scene', ended, whole, shifts, ready', steady, _, holds',
    UndoLog.endsWith_newest read.isWritten can_done⟩

end Request

end Renumber
