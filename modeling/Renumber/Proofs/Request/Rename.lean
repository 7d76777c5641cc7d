import Renumber.Proofs.History.Steps
import Renumber.Proofs.History.Stored
import Renumber.Proofs.Numbering.Filled
import Renumber.Proofs.Plan.Again
import Renumber.Proofs.Request.Run
import Renumber.Proofs.Run.Conduct
import Renumber.Proofs.Session.Kept
import Renumber.Request.Rename

/-!
# The parts of a request to rename

A request to rename makes a plan in memory first, for which destinations are filled in by an
edit: that changes what is wanted for the sources, and neither the world nor which sources there
are. Only then does it begin a run, for which the plan is made again, and the run ends with the
history that has the batch on top.
-/

namespace Renumber

open Outcome

/-! ## Edits of destinations -/

/-- Changes of destinations leave everything but what is wanted, and that for the same paths. -/
theorem Command.run_applyPaths (changes : List (Change Path)) (w : World) (ws : WorkingSet) :
    ∃ items : RenameItems,
      ((applyPaths changes).run.run ⟨w, some ws⟩).2 = ⟨w, some { ws with rename := some items }⟩ ∧
      items.entries.map Prod.fst = ws.renameItems.entries.map Prod.fst := by
  rw [run_applyPaths_some]
  cases unknownSource? ws.renameItems changes with
  | some source => exact ⟨ws.renameItems, rfl, rfl⟩
  | none =>
      refine ⟨_, rfl, ?_⟩
      have all := PathMap.keys_setAll ws.renameItems (changes.map fun c => (c.source, c.after))
      rw [PathMap.setAll, List.foldl_map] at all
      exact all

/-- Under the plain conduct a single command is tried once. -/
theorem Conduct.plain_place {σ : Type} {c : Conduct σ} (plain : c = .plain) (command : Command)
    (r : Run.State σ Workspace) :
    (Run.commands c.machine c.policy.onWorkspace false [command] r).2.place =
      (command.execute.run.run r.place).2 := by
  subst plain
  rw [Run.commands, Run.steps, Conduct.goes_on (.inl rfl)]
  simp only [Bool.false_eq_true, ↓reduceIte]
  rw [Run.attempt_eq]
  have unlogged : (Conduct.plain (σ := σ)).machine.note command.description r.place = r.place := rfl
  have tried : (Conduct.plain (σ := σ)).machine.execute command r.place =
      command.execute.run.run r.place := rfl
  rw [unlogged, tried]
  rcases command.execute.run.run r.place with ⟨failure | ⟨⟩, ws⟩ <;> rfl

namespace Session

variable {σ : Type} {s s' : Sitting σ} {g : Numbering} {numbered : Numbered}

/-- A session and a world of which at most what is wanted for sources is different, and the
account of edits. -/
structure Rewished (s s' : Sitting σ) : Prop where
  world : s'.world = s.world
  log : s'.session.log = s.session.log
  caseInsensitive : s'.session.caseInsensitive = s.session.caseInsensitive
  keys : s'.session.items.renameItems.entries.map Prod.fst =
    s.session.items.renameItems.entries.map Prod.fst

theorem Rewished.trans {u v w : Sitting σ} (first : Rewished u v) (second : Rewished v w) :
    Rewished u w where
  world := second.world.trans first.world
  log := second.log.trans first.log
  caseInsensitive := second.caseInsensitive.trans first.caseInsensitive
  keys := second.keys.trans first.keys

theorem renameItems_rewished (s : Sitting σ) : Rewished s s.renameItems.2 :=
  ⟨rfl, rfl, rfl, rfl⟩

/-- An edit of destinations only changes what is wanted. -/
theorem execute_rewished (tag : String) (changes : List (Change Path)) (s : Sitting σ) :
    Rewished s ((execute .plain true
      { kind := .redirect, tag, commands := [.redirect changes] }).run s).2 := by
  let c : Conduct σ := .plain
  let b : Batch := { kind := .redirect, tag, commands := [.redirect changes] }
  let r : Run.State σ Workspace := ⟨s.answers, ⟨s.world, some s.session.items⟩, s.report⟩
  have place := (s.session.history.call_place c.machine c.policy.onWorkspace r (.execute b)).trans
    (Conduct.plain_place (c := c) rfl (.redirect changes) r)
  obtain ⟨items, changed, keys⟩ := Command.run_applyPaths changes s.world s.session.items
  have after := place.trans changed
  have wanted := congrArg (fun ws : Workspace => ws.items.getD s.session.items) after
  refine ⟨congrArg Workspace.world after, rfl, rfl, ?_⟩
  refine (congrArg (fun ws : WorkingSet => ws.renameItems.entries.map Prod.fst) wanted).trans ?_
  exact keys

/-- Filling in a numbering only changes what is wanted. -/
theorem generate_rewished (ran : (generate .plain g).run.run s = (.ok numbered, s')) :
    Rewished s s' := by
  rw [generate, run_bind, run_get] at ran
  dsimp only at ran
  rw [run_bind, run_liftExcept] at ran
  cases made : g.number s.world.present s.session.items.sources with
  | error failure =>
      rw [made] at ran
      cases ran
  | ok numbered' =>
      rw [made] at ran
      dsimp only at ran
      rw [run_bind, run_modifyGet] at ran
      dsimp only at ran
      rw [run_ite] at ran
      split at ran
      · cases ran
        exact renameItems_rewished s
      · rw [run_bind, run_discard, run_lift] at ran
        cases ran
        exact (renameItems_rewished s).trans (execute_rewished _ _ _)

end Session

/-! ## Plans and runs -/

variable {σ : Type}

namespace RenameRequest

/-- What a request is about to do: the wanted destinations by source, and the plan for them. -/
structure Intent where
  pairs : PathPairs
  plan : RenamePlan

/-- Everything that comes before the run of a request. -/
def intend (env : Surroundings σ) (req : RenameRequest) : Request σ Intent := do
  let pattern := req.pattern.getD env.settings.defaults.pattern
  env.inSession req.sources do
    let options := req.options env.settings (← get).session.caseInsensitive
    let made := Numbering.make (.parse pattern.toList) options
    let numbering ← made.mapError (RequestFailure.cannotRename pattern)
    discard <| Surroundings.step (Session.generate .plain numbering)
    let plan ← Surroundings.step Session.plan
    return ⟨(← modifyGet Sitting.renameItems).pairs, plan⟩

end RenameRequest

namespace Session

variable {s s' : Sitting σ} {c : Conduct σ} {result : RenamePlan × Bool}

/-- Wanted renames are planned again, and run as one batch if there are any. -/
theorem commitRenames_ok (committed : (commitRenames c).run.run s = (.ok result, s')) :
    ∃ plan, Plan.strict s.world.present s.session.caseInsensitive s.session.items.renameItems.pairs =
        .ok plan ∧
      (plan.steps = [] ∧ s' = s.withItems s.session.items.withRename ∨ plan.steps ≠ [] ∧ ∃ items,
        let out := s.session.history.execute c.machine c.policy.onWorkspace
          (renameBatch plan "" s.readClock.1) (stateOf s.readClock.2 none)
        s' = after s items out.2.1 out.2.2) := by
  rw [commitRenames] at committed
  obtain ⟨plan, s₁, stepped, done⟩ := bind_eq_ok committed
  rw [run_plan] at stepped
  obtain ⟨planned, rfl⟩ := Prod.mk.inj stepped
  refine ⟨plan, planned, ?_⟩
  rw [run_ite] at done
  split at done
  · next empty =>
    cases done
    exact .inl ⟨List.isEmpty_iff.1 empty, rfl⟩
  · next some_step =>
    refine .inr ⟨fun empty => some_step (List.isEmpty_iff.2 empty), ?_⟩
    rw [run_bind, run_modifyGet] at done
    dsimp only at done
    rw [run_bind, run_lift] at done
    dsimp only at done
    rw [run_ite] at done
    split at done
    · cases done
      exact ⟨_, rfl⟩
    · cases done
      exact ⟨_, rfl⟩

end Session

namespace Surroundings

variable {env : Surroundings σ} {α : Type}

theorem inSession_ok {sources : List Path} {work : Work σ α} {scene scene' : Scene σ} {a : α}
    (ran : (env.inSession sources work).run.run scene = (.ok a, scene')) :
    ∃ s, work.run.run (env.opening sources scene) = (.ok a, s) ∧ scene' = leave s := by
  rw [run_inSession] at ran
  generalize work.run.run (env.opening sources scene) = out at ran ⊢
  obtain ⟨failure | result, s⟩ := out
  · cases ran
  · cases ran
    exact ⟨s, rfl, rfl⟩

end Surroundings

namespace RenameRequest

open Surroundings (leave)

variable {env : Surroundings σ} {req : RenameRequest} {scene scene' : Scene σ}
  {answer : RenameAnswer} {report : Report}

theorem present_opening (env : Surroundings σ) (sources : List Path) (scene : Scene σ) :
    (env.opening sources scene).world.present = scene.world.present := by
  obtain ⟨notices, same⟩ :=
    History.load_world env.undoLog env.settings.undo.limit scene.world
  have world : (env.opening sources scene).world = { scene.world with notices } := same
  rw [world]
  rfl

theorem mem_of_keys {sources : List Path} {items : RenameItems} {e : Path × Path}
    (keys : items.entries.map Prod.fst = (RenameItems.ofSources sources).entries.map Prod.fst)
    (member : e ∈ items.pairs.entries) : e.1 ∈ sources := by
  have key : e.1 ∈ items.entries.map Prod.fst := List.mem_map_of_mem (List.mem_filter.1 member).1
  have all : (sources.map fun s => (s, ())).map Prod.fst = sources := by
    rw [List.map_map]
    exact List.map_id _
  rw [keys, ← all, ← keys_ofSources] at key
  have listed := PathMap.mem_keys_ofList key
  rwa [all] at listed

/-- What a request intends is a plan for the world as it is, and about its sources. -/
theorem intend_ok {intent : Intent} (intended : ((req.intend env).run.run scene).1 = .ok intent) :
    Plan.strict scene.world.present false intent.pairs = .ok intent.plan ∧
      ∀ e ∈ intent.pairs.entries, e.1 ∈ req.sources := by
  generalize ran : (req.intend env).run.run scene = out at intended
  obtain ⟨_, scene''⟩ := out
  subst intended
  rw [intend] at ran
  obtain ⟨s₃, done, -⟩ := Surroundings.inSession_ok ran
  obtain ⟨s₀, _, got, done⟩ := bind_eq_ok done
  cases got
  obtain ⟨g, _, lifted, done⟩ := bind_eq_ok done
  rw [run_liftExcept] at lifted
  obtain ⟨-, rfl⟩ := Prod.mk.inj lifted
  obtain ⟨_, s, filled, done⟩ := bind_eq_ok done
  obtain ⟨numbered, filled⟩ := discard_eq_ok filled
  have wishes := Session.generate_rewished (adapt_eq_ok filled)
  obtain ⟨plan, _, stepped, done⟩ := bind_eq_ok done
  have stepped := adapt_eq_ok stepped
  rw [Session.run_plan, wishes.world, wishes.caseInsensitive, present_opening] at stepped
  obtain ⟨planned, rfl⟩ := Prod.mk.inj stepped
  cases done
  exact ⟨planned, fun e member => mem_of_keys wishes.keys member⟩

/-- What a request intends follows from its numbering and its plan. -/
theorem run_intend {g : Numbering} {numbered : Numbered} {s : Sitting σ} {plan : RenamePlan}
    (made : Numbering.make (.parse (req.pattern.getD env.settings.defaults.pattern).toList)
      (req.options env.settings false) = .ok g)
    (generated : (Session.generate .plain g).run.run (env.opening req.sources scene) =
      (.ok numbered, s))
    (planned : Plan.strict s.world.present s.session.caseInsensitive
      s.session.items.renameItems.pairs = .ok plan) :
    ((req.intend env).run.run scene).1 = .ok ⟨s.session.items.renameItems.pairs, plan⟩ := by
  have sensitive : (env.opening req.sources scene).session.caseInsensitive = false := rfl
  rw [intend, Surroundings.run_inSession, run_bind, run_get]
  simp only [sensitive]
  rw [run_bind, run_liftExcept, made]
  simp only [Except.mapError]
  rw [run_bind, run_discard, Surroundings.step, run_adapt, generated]
  simp only [Except.mapError]
  rw [run_bind, Surroundings.step, run_adapt, Session.run_plan, planned]
  rfl

/-- A request that ran something numbered its sources, made a plan, began a run, carried out the
plan, and ended the run. -/
theorem run_ok (ran : (req.run env).run.run scene = (.ok answer, scene'))
    (reported : answer.report = some report) :
    ∃ g numbered s plan, (Session.generate .plain g).run.run (env.opening req.sources scene) =
        (.ok numbered, s) ∧
      Plan.strict s.world.present s.session.caseInsensitive s.session.items.renameItems.pairs =
        .ok plan ∧
      ((req.intend env).run.run scene).1 = .ok ⟨s.session.items.renameItems.pairs, plan⟩ ∧
      answer.renames = req.shown s.session.items.renameItems.pairs ∧
      ∃ message c s₁ committed s₂ s₃,
        (env.beginRun message).run.run (s.withItems s.session.items.withRename) = (.ok c, s₁) ∧
        (Session.commitRenames c).run.run s₁ = (.ok committed, s₂) ∧
        Surroundings.endRun.run.run s₂ = (.ok report, s₃) ∧ scene' = leave s₃ := by
  rw [run] at ran
  obtain ⟨s₃, done, rfl⟩ := Surroundings.inSession_ok ran
  obtain ⟨s₀, _, got, done⟩ := bind_eq_ok done
  cases got
  obtain ⟨g, _, lifted, done⟩ := bind_eq_ok done
  rw [run_liftExcept] at lifted
  obtain ⟨made, rfl⟩ := Prod.mk.inj lifted
  obtain ⟨numbered, s, generated, done⟩ := bind_eq_ok done
  have generated := adapt_eq_ok generated
  obtain ⟨plan, _, stepped, done⟩ := bind_eq_ok done
  have stepped := adapt_eq_ok stepped
  rw [Session.run_plan] at stepped
  obtain ⟨planned, rfl⟩ := Prod.mk.inj stepped
  obtain ⟨items, s', looked, done⟩ := bind_eq_ok done
  cases looked
  rw [run_ite] at done
  split at done
  · cases done
    cases reported
  · obtain ⟨c, s₁, begun, done⟩ := bind_eq_ok done
    obtain ⟨_, s₂, committed, done⟩ := bind_eq_ok done
    obtain ⟨report', s₃', ended, done⟩ := bind_eq_ok done
    cases done
    cases reported
    obtain ⟨result, committed⟩ := discard_eq_ok committed
    have intended := run_intend (eq_ok_of_mapError made) generated planned
    exact ⟨g, numbered, s, plan, generated, planned, intended, rfl, _, c, s₁, result, s₂, s₃, begun,
      adapt_eq_ok committed, ended, rfl⟩

end RenameRequest

end Renumber
