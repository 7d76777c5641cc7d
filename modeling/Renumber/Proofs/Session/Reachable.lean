import Renumber.Proofs.History.Layers
import Renumber.Proofs.Session.Operations

/-!
# Histories of sessions

Every operation of a session calls its history at most once, and never changes where the
history is kept. So what holds of all histories that are reached by calls holds of the history
of every session; and since edits and commits make batches of commands of one kind, the
commands of every batch of a session are of its kind.
-/

namespace Renumber.Session

variable {σ : Type} {s s₁ s' : Sitting σ} {c : Conduct σ} {b : Batch}

/-- What an operation may ask the history for. -/
inductive Operation.Asks : Operation → History.Call → Prop
  | edit (e : Edit) {b : Batch} (edit : b.isRecorded = false) (kinds : ∀ c ∈ b.commands, c.kind = b.kind) :
      Asks (.edit e) (.execute b)
  | commitRenames {b : Batch} (kinds : ∀ c ∈ b.commands, c.kind = b.kind) :
      Asks .commitRenames (.execute b)
  | commitTouch {b : Batch} (kinds : ∀ c ∈ b.commands, c.kind = b.kind) :
      Asks .commitTouch (.execute b)
  | undo : Asks .undo .undo
  | redo : Asks .redo .redo

/-- The history was asked at most once for what the operation may ask for, and is kept where it
was. -/
structure Asked (o : Operation) (c : Conduct σ) (s s' : Sitting σ) : Prop where
  log : s'.session.log = s.session.log
  history : s'.session.history = s.session.history ∨
    ∃ call r, o.Asks call ∧
      s'.session.history = (s.session.history.call c.machine c.policy.onWorkspace r call).1

variable {o : Operation}

theorem Asked.nothing (log : s'.session.log = s.session.log)
    (history : s'.session.history = s.session.history) : Asked o c s s' :=
  ⟨log, .inl history⟩

/-- What was done before without the history makes no difference. -/
theorem Asked.since (asked : Asked o c s₁ s') (log : s₁.session.log = s.session.log)
    (history : s₁.session.history = s.session.history) : Asked o c s s' := by
  refine ⟨asked.log.trans log, ?_⟩
  rw [← history]
  exact asked.history

/-- A batch is executed, with the working set at hand or not. -/
theorem asked_execute (withItems : Bool) (asks : o.Asks (.execute b)) :
    Asked o c s ((execute c withItems b).run s).2 :=
  ⟨rfl, .inr ⟨.execute b, _, asks, rfl⟩⟩

theorem asked_executed (e : Edit) {command : Command} (edit : b.isRecorded = false)
    (commands : b.commands = [command]) (kind : command.kind = b.kind) :
    Asked (.edit e) c s (executed c b s) := by
  refine asked_execute true (.edit e edit ?_)
  rw [commands]
  exact List.forall_mem_singleton.2 kind

theorem asked_turned {call : History.Call} (asks : o.Asks call) (ran : Option Batch)
    (moves : Batch → List (Path × Path)) :
    Asked o c s (turned moves (ran, s.session.history.call c.machine c.policy.onWorkspace
      (stateOf s (some s.session.items)) call) s) := by
  have settle_log : ∀ (b : Batch) moves (s : Sitting σ), (settle b moves s).session.log = s.session.log := by
    intro b moves s
    rw [settle]
    split <;> rfl
  rw [turned]
  cases ran with
  | none => exact ⟨rfl, .inr ⟨call, _, asks, rfl⟩⟩
  | some b => exact ⟨settle_log .., .inr ⟨call, _, asks, settle_history ..⟩⟩

theorem Edit.asked (e : Edit) (c : Conduct σ) (s : Sitting σ) : Asked (.edit e) c s (e.run c s) := by
  cases e with
  | generate g =>
      rw [run_generate]
      split
      · exact .nothing rfl rfl
      · dsimp only
        split
        · exact .nothing rfl rfl
        · exact (asked_executed _ rfl rfl rfl).since rfl rfl
  | setDestination source target =>
      rw [run_setDestination]
      exact (asked_executed _ rfl rfl rfl).since rfl rfl
  | restate edit =>
      rw [run_restate]
      split
      · exact .nothing rfl rfl
      · dsimp only
        split
        · exact .nothing rfl rfl
        · exact (asked_executed _ rfl rfl rfl).since rfl rfl
  | reset =>
      rw [run_reset]
      dsimp only
      split
      · exact .nothing rfl rfl
      · exact asked_executed _ rfl rfl rfl

theorem asked_commitRenames (c : Conduct σ) (s : Sitting σ) :
    Asked .commitRenames c s (Operation.commitRenames.run c s) := by
  rw [Operation.run, run_commitRenames]
  split
  · exact .nothing rfl rfl
  · next plan planned =>
    dsimp only
    split
    · exact .nothing rfl rfl
    · let begun := (s.withItems s.session.items.withRename).readClock
      have kinds : ∀ command ∈ (renameBatch plan "" begun.1).commands, command.kind = .rename :=
        List.forall_mem_map.2 fun _ _ => rfl
      have ran := asked_execute (c := c) (s := begun.2) false (.commitRenames kinds)
      rw [moved]
      split
      · exact Asked.since ⟨ran.log, ran.history⟩ rfl rfl
      · exact ran.since rfl rfl

theorem asked_commitTouch (c : Conduct σ) (s : Sitting σ) :
    Asked .commitTouch c s (Operation.commitTouch.run c s) := by
  rw [Operation.run, run_commitTouch]
  dsimp only
  split
  · exact .nothing rfl rfl
  · split
    · exact .nothing rfl rfl
    · next items w read some_touch =>
      have kinds : ∀ command ∈ (touchBatch items s.readClock.1).commands, command.kind = .touch :=
        List.forall_mem_map.2 fun _ _ => rfl
      have ran := asked_execute (c := c) (s := { s.readClock.2 with world := w }.withItems
        { s.readClock.2.session.items with touch := some items }) false (.commitTouch kinds)
      exact ⟨ran.log, ran.history⟩

/-- Every operation asks the history at most once. -/
theorem Operation.asked (o : Operation) (c : Conduct σ) (s : Sitting σ) : Asked o c s (o.run c s) := by
  cases o with
  | edit e => exact e.asked c s
  | commitRenames => exact asked_commitRenames c s
  | commitTouch => exact asked_commitTouch c s
  | undo =>
      rw [Operation.run, run_undo_eq]
      exact asked_turned .undo _ _
  | redo =>
      rw [Operation.run, run_redo_eq]
      exact asked_turned .redo _ _

variable {session : Session}

/-- The history of a session is reached by calls. -/
theorem Reached.reachable (reached : session.Reached) : session.history.Reachable := by
  induction reached with
  | start sources log limit w => exact .load log limit w
  | @operation σ s before c o reachable =>
      obtain same | ⟨call, r, -, same⟩ := (o.asked c s).history
      · rw [same]
        exact reachable
      · rw [same]
        exact reachable.call ..

/-- The commands of every batch of a session are of its kind. -/
theorem Reached.kinds (reached : session.Reached) :
    ∀ b ∈ session.history.batches, ∀ c ∈ b.commands, c.kind = b.kind := by
  induction reached with
  | start sources log limit w =>
      obtain ⟨done, undone⟩ := History.load_loaded log limit w
      exact List.forall_mem_append.2
        ⟨fun b member => (done b member).kinds, fun b member => (undone b member).kinds⟩
  | @operation σ s before c o kinds =>
      have part_kinds : ∀ {part b : Batch}, part.PartOf b → (∀ c ∈ b.commands, c.kind = b.kind) →
          ∀ c ∈ part.commands, c.kind = part.kind := by
        intro part b part_of own c member
        rw [part_of.kind]
        exact own c (part_of.commands.subset member)
      obtain same | ⟨call, r, asks, same⟩ := (o.asked c s).history
      · rw [same]
        exact kinds
      · rw [same]
        refine (History.step_call ..).forall part_kinds (fun new part_of => ?_) kinds
        subst new
        cases asks with
        | edit _ _ own => exact part_kinds part_of own
        | commitRenames own => exact part_kinds part_of own
        | commitTouch own => exact part_kinds part_of own

end Renumber.Session
