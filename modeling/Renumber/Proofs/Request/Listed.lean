import Renumber.Answer.Summary
import Renumber.Proofs.History.Steps
import Renumber.Proofs.Plan.Phases
import Renumber.Proofs.Request.Parted

/-!
# Renames that are listed

Whether a rename is wanted is decided by how the destination is spelled, and whether it is planned
by which path that is. So the answer to a request lists a file that is to keep its path in another
spelling, though there is no command for it. All other files that are listed have one, and it is
the plan's first for them.
-/

namespace Renumber

open Outcome

variable {σ ω : Type}

/-! ## The first phase of a plan -/

/-- The sources of the steps with which files leave their places, in order. -/
def RenamePlan.firstSources (plan : RenamePlan) : List Path :=
  (plan.steps.filter (·.phase ≠ .delayed)).map RenameStep.source

/-- The commands that carry out a plan. -/
def RenamePlan.commands (plan : RenamePlan) : List Command :=
  plan.steps.map fun step => .rename step.source step.target

namespace Plan

variable {present : Path → Bool} {ci : Bool} {sourceKeys : List PathKey} {pairs : PathPairs}
  {plan : RenamePlan} {e : Path × Path}

/-- The steps that are chosen first are those of the first phase, and the others are delayed. -/
theorem Chosen.phases {o : Occupancy} {pairs : List (Path × Path)} {steps delayed : List RenameStep}
    (chosen : Chosen present ci sourceKeys o pairs steps delayed) :
    (∀ s ∈ steps, s.phase ≠ .delayed) ∧ ∀ s ∈ delayed, s.phase = .delayed := by
  have direct : StepPhase.direct ≠ .delayed := by decide
  have staged : StepPhase.staged ≠ .delayed := by decide
  induction chosen with
  | nil => exact ⟨List.forall_mem_nil _, List.forall_mem_nil _⟩
  | direct _ _ ih => exact ⟨List.forall_mem_cons.2 ⟨direct, ih.1⟩, ih.2⟩
  | staged _ _ _ _ ih =>
      exact ⟨List.forall_mem_cons.2 ⟨staged, ih.1⟩, List.forall_mem_cons.2 ⟨rfl, ih.2⟩⟩

/-- A plan moves the sources of the pairs that lead to other paths, in order. -/
theorem firstSources_eq (planned : strict present ci pairs = .ok plan) :
    plan.firstSources = (changing pairs).map Prod.fst := by
  obtain ⟨-, steps, delayed, rfl, chosen⟩ := strict_eq_ok planned
  obtain ⟨first, later⟩ := chosen.phases
  have kept : steps.filter (·.phase ≠ .delayed) = steps :=
    List.filter_eq_self.2 fun s member => decide_eq_true (first s member)
  have dropped : delayed.filter (·.phase ≠ .delayed) = [] :=
    List.filter_eq_nil_iff.2 fun s member => by simp [later s member]
  rw [RenamePlan.firstSources, List.filter_append, kept, dropped, List.append_nil, chosen.sources]

/-- Those are the sources of all pairs when no pair leads to another spelling of its source. -/
theorem firstSources_eq_iff (planned : strict present ci pairs = .ok plan) :
    plan.firstSources = pairs.entries.map Prod.fst ↔ ∀ e ∈ pairs.entries, e.1.same e.2 = false := by
  rw [firstSources_eq planned]
  constructor
  · intro all e member
    have count := congrArg List.length all
    rw [List.length_map, List.length_map, changing, List.length_filter_eq_length_iff] at count
    simpa using count e member
  · intro apart
    have all : changing pairs = pairs.entries :=
      List.filter_eq_self.2 fun e member => by simp [apart e member]
    rw [all]

/-- The plan moves a source exactly when its pair leads to another path. -/
theorem mem_firstSources (planned : strict present ci pairs = .ok plan) (member : e ∈ pairs.entries) :
    e.1 ∈ plan.firstSources ↔ e.1.same e.2 = false := by
  rw [firstSources_eq planned, List.mem_map]
  constructor
  · rintro ⟨e', moves, source⟩
    obtain ⟨member', apart⟩ := List.mem_filter.1 moves
    have found := PathMap.findItem?_of_mem member'
    rw [source, PathMap.findItem?_of_mem member] at found
    cases found
    simpa using apart
  · intro apart
    exact ⟨e, List.mem_filter.2 ⟨member, by simp [apart]⟩, rfl⟩

end Plan

/-- A source that the plan moves first is the source of a command. -/
theorem RenamePlan.exists_command {plan : RenamePlan} {source : Path} (first : source ∈ plan.firstSources) :
    ∃ target, .rename source target ∈ plan.commands := by
  obtain ⟨step, member, rfl⟩ := List.mem_map.1 first
  exact ⟨step.target, List.mem_map.2 ⟨step, List.mem_of_mem_filter member, rfl⟩⟩

/-! ## What ran of a batch -/

/-- With a new account, what ran of a batch is counted, is all of it exactly when the report is
complete, and is the newest batch of the history. -/
theorem History.execute_fresh (h : History) (m : Machine ω) (p : Policy σ ω) (b : Batch)
    {r : Run.State σ ω} (fresh : r.report = {}) :
    let out := h.execute m p b r
    ∃ ran : List Command, ran.Sublist b.commands ∧ out.2.2.report.executed = ran.length ∧
      (out.2.2.report.isComplete = true ↔ ran = b.commands) ∧
      (ran ≠ [] → out.2.1.toUndo? = some { b with commands := ran }) := by
  intro out
  obtain ⟨s, w, report⟩ := r
  cases fresh
  have account := Run.steps_account m p false b.commands ⟨s, w, { total := 0 + b.commands.length }⟩
  have state : out.2.2 = (b.execute m p ⟨s, w, {}⟩).2 := h.execute_state m p b ⟨s, w, {}⟩
  have executed : out.2.2.report.executed = 0 + _ := state ▸ account.executed
  have left : out.2.2.report.failed.length + out.2.2.report.skipped = 0 + 0 + _ := state ▸ account.left
  have balanced : out.2.2.report.Balanced := state ▸ account.balanced .empty
  have splits := account.splits
  refine ⟨_, splits.done, executed.trans (Nat.zero_add _), ?_, fun some_ran => ?_⟩
  · rw [balanced.isComplete_iff, left]
    have count := splits.length
    constructor
    · intro none_left
      exact splits.done.eq_of_length (by omega)
    · intro all
      rw [all] at count
      omega
  · have part : h.ran? m p ⟨s, w, {}⟩ (.execute b) = some { b with commands := _ } :=
      if_neg (mt List.isEmpty_iff.1 some_ran)
    rw [← part]
    exact (h.execute_ran? m p b ⟨s, w, {}⟩).2 (part ▸ rfl)

/-! ## Requests to rename -/

namespace RenameRequest

variable {env : Surroundings σ} {req : RenameRequest} {scene scene' : Scene σ}
  {answer : RenameAnswer} {report : Report} {items : RenameItems} {plan : RenamePlan} {ran : List Command}

/-- An answer lists the renames that were wanted, and its report counts the commands that ran of the
plan for them, which are the newest batch of the history that was kept. -/
structure Lists (env : Surroundings σ) (req : RenameRequest) (scene' : Scene σ) (answer : RenameAnswer)
    (report : Report) (items : RenameItems) (plan : RenamePlan) (ran : List Command) : Prop where
  listed : answer.renames = req.shown items.pairs
  of_sources : ∀ e ∈ items.pairs.entries, e.1 ∈ req.sources
  planned : ∃ w : World, Plan.strict w.present false items.pairs = .ok plan
  of_plan : ran.Sublist plan.commands
  executed : report.executed = ran.length
  complete : report.isComplete = true ↔ ran = plan.commands
  kept : ∃ (h : History) (w : World), (h.save env.undoLog).run.run w = (.ok (), scene'.world) ∧
    (ran ≠ [] → h.toUndo?.map Batch.commands = some ran)

/-- A request that ran something or had nothing to run answers with what was wanted. -/
theorem run_lists (done : (req.run env).run.run scene = (.ok answer, scene'))
    (reported : answer.report = some report) :
    ∃ items plan ran, Lists env req scene' answer report items plan ran := by
  obtain ⟨g, numbered, s, plan, generated, -, -, listed, message, c, s₁, committed, s₂, s₃, begun, commits,
    ended, rfl⟩ := run_ok done reported
  have wishes := Session.generate_rewished generated
  obtain ⟨w, rfl⟩ := (Surroundings.beginRun_fresh begun).1
  obtain ⟨again, planned, ran⟩ := Session.commitRenames_ok commits
  obtain ⟨rfl, saved⟩ := Surroundings.endRun_ok ended
  have sensitive : s.session.caseInsensitive = false := wishes.caseInsensitive
  have log : s.session.log = env.undoLog := wishes.log
  have planned : Plan.strict w.present s.session.caseInsensitive s.session.items.renameItems.pairs =
    .ok again := planned
  rw [sensitive] at planned
  have of_sources : ∀ e ∈ s.session.items.renameItems.pairs.entries, e.1 ∈ req.sources :=
    fun e member => mem_of_keys wishes.keys member
  refine ⟨s.session.items.renameItems, again, ?_⟩
  obtain ⟨no_step, rfl⟩ | ⟨-, items, rfl⟩ := ran
  · have none_planned : again.commands = [] := by rw [RenamePlan.commands, no_step, List.map_nil]
    have saved : (s.session.history.save s.session.log).run.run w = (.ok (), s₃.world) := saved
    rw [log] at saved
    refine ⟨[], listed, of_sources, ⟨w, planned⟩, List.nil_sublist _, rfl, ?_, _, w, saved, ?_⟩
    · rw [none_planned]
      exact iff_of_true rfl rfl
    · exact fun some_ran => absurd rfl some_ran
  · let fresh : Sitting σ := { s.withItems s.session.items.withRename with world := w, report := {} }
    let b : Batch := Session.renameBatch again "" fresh.readClock.1
    let r : Run.State σ Workspace := Session.stateOf fresh.readClock.2 none
    let out := s.session.history.execute c.machine c.policy.onWorkspace b r
    have saved : (out.2.1.save s.session.log).run.run out.2.2.place.world = (.ok (), s₃.world) := saved
    rw [log] at saved
    obtain ⟨ran, of_plan, executed, complete, newest⟩ :=
      s.session.history.execute_fresh c.machine c.policy.onWorkspace b (r := r) rfl
    refine ⟨ran, listed, of_sources, ⟨w, planned⟩, of_plan, executed, complete, _, _, saved, ?_⟩
    intro some_ran
    rw [newest some_ran]
    rfl

/-- A plan takes its first-phase steps from the sources of the pairs that lead to other paths, in
order. Those are the sources of all pairs exactly when no pair leads to another spelling of its
source. A request that comes to a run lists the sources of all pairs; it has a first-phase step for
exactly those that are to get another path, and if it completes it ran a command for each of these.
A file that is to keep its path in another spelling is listed, and nothing is done about it. -/
theorem lists_planned (env : Surroundings σ) :
    (∀ (present : Path → Bool) (ci : Bool) (items : RenameItems) (plan : RenamePlan),
      Plan.strict present ci items.pairs = .ok plan →
        plan.firstSources = (Plan.changing items.pairs).map Prod.fst ∧
        (plan.firstSources = items.pairs.entries.map Prod.fst ↔
          ∀ e ∈ items.pairs.entries, e.1.same e.2 = false)) ∧
    ∀ (req : RenameRequest) (scene scene' : Scene σ) (answer : RenameAnswer) (report : Report),
      (req.run env).run.run scene = (.ok answer, scene') → answer.report = some report →
        ∃ items plan ran, Lists env req scene' answer report items plan ran ∧
          ∀ e ∈ items.pairs.entries, (e.1 ∈ plan.firstSources ↔ e.1.same e.2 = false) ∧
            (report.isComplete = true → e.1.same e.2 = false → ∃ target, .rename e.1 target ∈ ran) := by
  refine ⟨fun present ci items plan planned =>
    ⟨Plan.firstSources_eq planned, Plan.firstSources_eq_iff planned⟩, ?_⟩
  intro req scene scene' answer report done reported
  obtain ⟨items, plan, ran, lists⟩ := run_lists done reported
  obtain ⟨w, planned⟩ := lists.planned
  refine ⟨items, plan, ran, lists, fun e member => ?_⟩
  have moves := Plan.mem_firstSources planned member
  refine ⟨moves, fun complete apart => ?_⟩
  rw [lists.complete.1 complete]
  exact RenamePlan.exists_command (moves.2 apart)

/-- Two files that change places are listed, and a command ran for each of them. -/
theorem lists_planned_swapped :
    ∃ answer report scene', (swapRequest.run sampleSurroundings).run.run swapScene = (.ok answer, scene') ∧
      answer.report = some report ∧ report.isComplete = true ∧
      answer.renames = [⟨"/w/x2", "/w/x1"⟩, ⟨"/w/x1", "/w/x2"⟩] ∧
      ∃ items plan ran, Lists sampleSurroundings swapRequest scene' answer report items plan ran ∧
        plan.firstSources = (Plan.changing items.pairs).map Prod.fst ∧
        ∀ e ∈ items.pairs.entries, e.1.same e.2 = false → ∃ target, .rename e.1 target ∈ ran := by
  obtain ⟨planned, requested⟩ := lists_planned sampleSurroundings
  obtain ⟨answer, answered, known⟩ := exists_of_toOption
    (show ((swapRequest.run sampleSurroundings).run.run swapScene).1.toOption.map
      (fun answer => (answer.report.map Report.isComplete, answer.renames)) =
        some (some true, [⟨"/w/x2", "/w/x1"⟩, ⟨"/w/x1", "/w/x2"⟩]) by decide +kernel)
  obtain ⟨account, renames⟩ := Prod.mk.inj known
  obtain ⟨report, reported, complete⟩ := Option.map_eq_some_iff.1 account
  have ran : (swapRequest.run sampleSurroundings).run.run swapScene = (.ok answer, _) :=
    Prod.ext answered rfl
  obtain ⟨items, plan, commands, lists, moved⟩ := requested _ _ _ answer report ran reported
  obtain ⟨w, made⟩ := lists.planned
  exact ⟨answer, report, _, ran, reported, complete, renames, items, plan, commands, lists,
    (planned _ _ _ _ made).1, fun e member => (moved e member).2 complete⟩

/-- A file that is to go to the folder where it is, which is spelled differently. -/
def respelledRequest : RenameRequest where
  sources := [.ofString "/w/a"]
  pattern := some "*"
  folder := some (.ofString "/w/.")

/-- The file is listed and counted as renamed, by a run that is complete without a command; the plan
has no step for the pair that is wanted. -/
theorem not_lists_planned_respelled :
    let scene : Scene Unit := ⟨World.sample [("a", "first")], ()⟩
    let items : RenameItems := .ofList [(.ofString "/w/a", .ofString "/w/./a")]
    ((respelledRequest.run sampleSurroundings).run.run scene).1.toOption.map
        (fun answer => (answer.renames, answer.report, Answer.renameSummary false answer)) =
      some ([⟨"/w/a", "/w/./a"⟩], some {},
        "✓ Renamed 1 files (0 operations)\nUndo with: seqren undo\n") ∧
    ((respelledRequest.intend sampleSurroundings).run.run scene).1.toOption.map
        (fun intent => (intent.pairs.entries, intent.plan.steps)) = some (items.pairs.entries, []) ∧
    items.pairs.entries.map Prod.fst = [.ofString "/w/a"] := by
  refine ⟨?_, ?_, ?_⟩
  all_goals decide +kernel

end RenameRequest

end Renumber
