import Renumber.Proofs.History.Parted
import Renumber.Proofs.Request.RoundTrip

/-!
# Undoing and redoing in part

A request to undo or redo the newest batch may come to only a part of it. The answer counts
the commands that went over to the other stack, tells whether any stayed behind, and the
history with the two parts is kept.
-/

namespace Renumber

open Outcome

variable {σ ω : Type}

namespace Surroundings

variable {env : Surroundings σ} {s s' : Sitting σ} {message : String} {c : Conduct σ}

/-- A run begins on the session as it is, with a new account and under the given policy. -/
theorem beginRun_fresh (begun : (env.beginRun message).run.run s = (.ok c, s')) :
    (∃ w, s' = { s with world := w, report := {} }) ∧ c.policy = env.policy ∧
      c.heedsStop = env.heedsStop := by
  have same : ∃ w, (env.openLog.run.run s).2 = { s with world := w } := by
    rw [openLog]
    cases env.operationLog with
    | none => exact ⟨s.world, rfl⟩
    | some path =>
        rw [run_bind, run_onWorld]
        rcases (OperationLog.openAt path).run.run s.world with ⟨_ | log, w⟩ <;> exact ⟨w, rfl⟩
  rw [run_beginRun] at begun
  generalize env.openLog.run.run s = out at begun same
  obtain ⟨failure | log, s₁⟩ := out
  · cases begun
  · obtain ⟨w, rfl⟩ := same
    cases begun
    exact ⟨⟨_, rfl⟩, rfl, rfl⟩

end Surroundings

namespace Request

/-- An answer counts the commands that went over to the other stack, as its report does, and
tells whether a part of the batch stayed behind. -/
structure Counts (answer : StepAnswer) (b : Batch) (parts : Run.Parts) : Prop where
  commands : answer.commands = parts.done.length
  executed : answer.report.executed = answer.commands
  isPartial : answer.isPartial = true ↔ (b.part? parts.left).isSome = true

theorem stepAnswer_counts {b : Batch} {inverse : Bool} {courses : List (List (Command × ω))}
    {parts : Run.Parts} {report : Report} (parted : b.Parted inverse courses parts {} report) :
    Counts (stepAnswer b (b.part? parts.done) report) b parts where
  commands := b.size_part? parts.done
  executed := by
    refine parted.executed.trans ?_
    rw [Nat.zero_add]
    exact (b.size_part? parts.done).symm
  isPartial := by
    have counted := parted.splits.length
    rw [b.isSome_part?, ← List.length_pos_iff]
    dsimp only [stepAnswer]
    rw [b.size_part?, decide_eq_true_iff, Batch.size]
    omega

variable {env : Surroundings σ} {scene scene' : Scene σ} {answer : StepAnswer}

/-- A batch was undone or redone for a request, which counts what went over to the other
stack, reports the run and keeps the history. -/
structure Turned (env : Surroundings σ) (scene' : Scene σ) (answer : StepAnswer) (c : Conduct σ)
    (b : Batch) (parts : Run.Parts) (out : Option Batch × History × Run.State σ Workspace) : Prop
    extends Counts answer b parts where
  policy : c.policy = env.policy
  heedsStop : c.heedsStop = env.heedsStop
  report : answer.report = out.2.2.report
  kept : (out.2.1.save env.undoLog).run.run out.2.2.place.world = (.ok (), scene'.world)

/-- Between the beginning and the end of a run a history turns a batch over. -/
theorem turn_ok {turn : Conduct σ → StateM (Sitting σ) (Option Batch)}
    {step : History → Machine Workspace → Policy σ Workspace → Run.State σ Workspace →
      Option Batch × History × Run.State σ Workspace}
    (turns : ∀ c s, ∃ items, (turn c).run s =
      let out := step s.session.history c.machine c.policy.onWorkspace
        (Session.stateOf s (some s.session.items))
      (out.1, Session.after s items out.2.1 out.2.2))
    {b : Batch} {message : String} {s s' : Sitting σ}
    (ran : (do
      let c ← env.beginRun message
      let ran ← turn c
      return stepAnswer b ran (← Surroundings.endRun) : Work σ StepAnswer).run.run s =
        (.ok answer, s')) :
    ∃ (c : Conduct σ) (ws : Workspace),
      let out := step s.session.history c.machine c.policy.onWorkspace ⟨s.answers, ws, {}⟩
      c.policy = env.policy ∧ c.heedsStop = env.heedsStop ∧
        answer = stepAnswer b out.1 out.2.2.report ∧
        (out.2.1.save s.session.log).run.run out.2.2.place.world = (.ok (), s'.world) := by
  obtain ⟨c, s₁, begun, done⟩ := bind_eq_ok ran
  obtain ⟨⟨w, rfl⟩, policy, heeds⟩ := Surroundings.beginRun_fresh begun
  obtain ⟨part, s₂, turned, done⟩ := bind_eq_ok done
  obtain ⟨report, s₃, ended, done⟩ := bind_eq_ok done
  cases done
  obtain ⟨items, run⟩ := turns c { s with world := w, report := {} }
  rw [run_lift, run] at turned
  obtain ⟨same, rfl⟩ := Prod.mk.inj turned
  cases same
  obtain ⟨rfl, saved⟩ := Surroundings.endRun_ok ended
  exact ⟨c, ⟨w, some s.session.items⟩, policy, heeds, rfl, saved⟩

/-- A request to undo that answers has undone the newest batch. -/
theorem undo_ok (ran : (undo env).run.run scene = (.ok answer, scene')) :
    ∃ (b : Batch) (others : List Batch) (c : Conduct σ) (ws : Workspace),
      let h := (env.opening [] scene).session.history
      let r : Run.State σ Workspace := ⟨scene.answers, ws, {}⟩
      h.done = b :: others ∧
        Turned env scene' answer c b (b.parts c.machine c.policy.onWorkspace true r)
          (h.undo c.machine c.policy.onWorkspace r) := by
  rw [undo] at ran
  obtain ⟨s', done, rfl⟩ := Surroundings.inSession_ok ran
  obtain ⟨s, _, got, done⟩ := bind_eq_ok done
  cases got
  cases newest : (env.opening [] scene).session.history.toUndo? with
  | none =>
      rw [newest] at done
      cases done
  | some b =>
      rw [newest] at done
      obtain ⟨others, newest⟩ := List.head?_eq_some_iff.1 newest
      obtain ⟨c, ws, policy, heeds, rfl, kept⟩ := turn_ok Session.run_undo done
      refine ⟨b, others, c, ws, newest, ⟨?_, policy, heeds, rfl, kept⟩⟩
      rw [History.undo_split _ _ _ newest]
      exact stepAnswer_counts (b.undo_parted ..).2

/-- A request to redo that answers has redone the newest undone batch. -/
theorem redo_ok (ran : (redo env).run.run scene = (.ok answer, scene')) :
    ∃ (b : Batch) (others : List Batch) (c : Conduct σ) (ws : Workspace),
      let h := (env.opening [] scene).session.history
      let r : Run.State σ Workspace := ⟨scene.answers, ws, {}⟩
      h.undone = b :: others ∧
        Turned env scene' answer c b (b.parts c.machine c.policy.onWorkspace false r)
          (h.redo c.machine c.policy.onWorkspace r) := by
  rw [redo] at ran
  obtain ⟨s', done, rfl⟩ := Surroundings.inSession_ok ran
  obtain ⟨s, _, got, done⟩ := bind_eq_ok done
  cases got
  cases newest : (env.opening [] scene).session.history.toRedo? with
  | none =>
      rw [newest] at done
      cases done
  | some b =>
      rw [newest] at done
      obtain ⟨others, newest⟩ := List.head?_eq_some_iff.1 newest
      obtain ⟨c, ws, policy, heeds, rfl, kept⟩ := turn_ok Session.run_redo done
      refine ⟨b, others, c, ws, newest, ⟨?_, policy, heeds, rfl, kept⟩⟩
      rw [History.redo_split _ _ _ newest]
      exact stepAnswer_counts (b.redo_parted ..).2

/-- Undoing the newest batch parts its commands without loss, each part in their order and with
all else of the batch: those whose inverses ran in the end come on top of the undone batches,
and come back, and the others stay on top of the done ones; an absent part is on neither stack.
All other batches stay, but for edits when a part of a recorded batch ran. The same holds of
redoing the newest undone batch, after which the oldest done ones may be forgotten. Requests
for either count the commands that went over, as their reports do, and tell whether any stayed
behind. -/
theorem undo_redo_parted (m : Machine ω) (p : Policy σ ω) (r : Run.State σ ω) (b : Batch)
    (others stack : List Batch) (limit : Nat) (env : Surroundings σ) (scene : Scene σ) :
    (let parts := b.parts m p true r
      let ran := b.part? parts.done
      History.undo ⟨b :: others, stack, limit⟩ m p r =
        (ran, ⟨(b.part? parts.left).toList ++ b.beside ran others,
          ran.toList ++ b.beside ran stack, limit⟩, (b.undo m p r).2) ∧
      b.Parted true (b.courses m p true r) parts r.report (b.undo m p r).2.report) ∧
    (let parts := b.parts m p false r
      let ran := b.part? parts.done
      let h : History := ⟨ran.toList ++ b.beside ran stack,
        (b.part? parts.left).toList ++ b.beside ran others, limit⟩
      History.redo ⟨stack, b :: others, limit⟩ m p r =
        (ran, if ran.isSome then h.prune else h, (b.redo m p r).2) ∧
      b.Parted false (b.courses m p false r) parts r.report (b.redo m p r).2.report) ∧
    (∀ answer scene', (undo env).run.run scene = (.ok answer, scene') →
      ∃ (b : Batch) (others : List Batch) (c : Conduct σ) (ws : Workspace),
        let h := (env.opening [] scene).session.history
        let r : Run.State σ Workspace := ⟨scene.answers, ws, {}⟩
        h.done = b :: others ∧
          Turned env scene' answer c b (b.parts c.machine c.policy.onWorkspace true r)
            (h.undo c.machine c.policy.onWorkspace r)) ∧
    (∀ answer scene', (redo env).run.run scene = (.ok answer, scene') →
      ∃ (b : Batch) (others : List Batch) (c : Conduct σ) (ws : Workspace),
        let h := (env.opening [] scene).session.history
        let r : Run.State σ Workspace := ⟨scene.answers, ws, {}⟩
        h.undone = b :: others ∧
          Turned env scene' answer c b (b.parts c.machine c.policy.onWorkspace false r)
            (h.redo c.machine c.policy.onWorkspace r)) := by
  exact ⟨⟨History.undo_split m p r rfl, (b.undo_parted m p r).2⟩,
    ⟨History.redo_split m p r rfl, (b.redo_parted m p r).2⟩, fun _ _ => undo_ok, fun _ _ => redo_ok⟩

/-- Surroundings in which failures are ignored. -/
def lenientSurroundings : Surroundings Unit :=
  { RenameRequest.sampleSurroundings with policy := .fixed true }

/-- Two files that are to get other names. -/
def pairRequest : RenameRequest where
  sources := [.ofString "/w/a", .ofString "/w/c"]
  pattern := some "b#"

/-- Both files were renamed, and then the first name was taken again. -/
def takenScene : Scene Unit :=
  let scene := ((pairRequest.run lenientSurroundings).run.run
    ⟨World.sample [("a", "first"), ("c", "second")], ()⟩).2
  let taken := scene.world.disk.put (sampleFolder ++ [Text.bytesOf "a"]) (.file 0)
  { scene with world := { scene.world with disk := taken } }

/-- How many commands went over for a request, and whether any stayed behind. -/
def counted (turn : Request σ StepAnswer) (scene : Scene σ) : Option (Nat × Bool) :=
  (turn.run.run scene).1.toOption.map fun answer => (answer.commands, answer.isPartial)

/-- One file can go back and then once more to its new name, and the other stays there. -/
theorem undo_redo_parted_taken :
    (∃ answer scene', (undo lenientSurroundings).run.run takenScene = (.ok answer, scene') ∧
      (answer.commands, answer.isPartial) = (1, true) ∧
      ∃ (b : Batch) (others : List Batch) (c : Conduct Unit) (ws : Workspace),
        let h := (lenientSurroundings.opening [] takenScene).session.history
        let r : Run.State Unit Workspace := ⟨takenScene.answers, ws, {}⟩
        h.done = b :: others ∧
          Turned lenientSurroundings scene' answer c b (b.parts c.machine c.policy.onWorkspace true r)
            (h.undo c.machine c.policy.onWorkspace r)) ∧
    (let scene := ((undo lenientSurroundings).run.run takenScene).2
      ∃ answer scene', (redo lenientSurroundings).run.run scene = (.ok answer, scene') ∧
      (answer.commands, answer.isPartial) = (1, false) ∧
      ∃ (b : Batch) (others : List Batch) (c : Conduct Unit) (ws : Workspace),
        let h := (lenientSurroundings.opening [] scene).session.history
        let r : Run.State Unit Workspace := ⟨scene.answers, ws, {}⟩
        h.undone = b :: others ∧
          Turned lenientSurroundings scene' answer c b (b.parts c.machine c.policy.onWorkspace false r)
            (h.redo c.machine c.policy.onWorkspace r)) := by
  have parted := fun scene => undo_redo_parted (Conduct.plain (σ := Unit)).machine
    Conduct.plain.policy.onWorkspace ⟨(), ⟨World.sample [], none⟩, {}⟩ ⟨.rename, "", none, []⟩ [] [] 1
    lenientSurroundings scene
  constructor
  · obtain ⟨answer, answered, counts⟩ := exists_of_toOption
      (show counted (undo lenientSurroundings) takenScene = some (1, true) by
        decide +kernel)
    have ran : (undo lenientSurroundings).run.run takenScene = (.ok answer, _) := Prod.ext answered rfl
    exact ⟨answer, _, ran, counts, (parted takenScene).2.2.1 answer _ ran⟩
  · intro scene
    obtain ⟨answer, answered, counts⟩ := exists_of_toOption
      (show counted (redo lenientSurroundings) scene = some (1, false) by
        decide +kernel)
    have ran : (redo lenientSurroundings).run.run scene = (.ok answer, _) := Prod.ext answered rfl
    exact ⟨answer, _, ran, counts, (parted scene).2.2.2 answer _ ran⟩

end Request

end Renumber
