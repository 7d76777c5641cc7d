import Renumber.History.Basic
import Renumber.Proofs.History.Moves

/-!
# What a call does to a history

A history runs the commands of at most one batch for each call, and leaves the place where that
run ends. Whatever a call runs and however that ends, it does little to the stacks. The newest batch
of one stack gives way to a part of itself, a part comes on top of the other stack, edits
are forgotten if the batch is recorded, and batches beyond the limit are. What holds of all
batches therefore goes on to hold if it holds of all parts of a batch.
-/

namespace Renumber

namespace History

variable {σ ω : Type}

/-- What a history can be asked for. -/
inductive Call where
  | execute (b : Batch)
  | undo
  | redo

/-- The history and the state after a call. -/
def call (h : History) (m : Machine ω) (p : Policy σ ω) (r : Run.State σ ω) :
    Call → History × Run.State σ ω
  | .execute b => (h.execute m p b r).2
  | .undo => (h.undo m p r).2
  | .redo => (h.redo m p r).2

/-- Whether a call runs inverses, and which commands it is about. -/
def running (h : History) : Call → Bool × List Command
  | .execute b => (false, b.commands)
  | .undo => (true, (h.toUndo?.elim [] Batch.commands).reverse)
  | .redo => (false, h.toRedo?.elim [] Batch.commands)

/-- However few may be kept, the newest is. -/
theorem take_cons_of_limit (limit : Nat) (b : Batch) (rest : List Batch) :
    ∃ rest', (b :: rest).take (max limit 1) = b :: rest' := by
  obtain ⟨n, limit_eq⟩ : ∃ n, max limit 1 = n + 1 := ⟨max limit 1 - 1, by omega⟩
  rw [limit_eq, List.take_succ_cons]
  exact ⟨_, rfl⟩

theorem execute_state (h : History) (m : Machine ω) (p : Policy σ ω) (b : Batch)
    (r : Run.State σ ω) : (h.execute m p b r).2.2 = (b.execute m p r).2 := by
  rw [execute]
  generalize b.execute m p r = out
  obtain ⟨_ | ran, r'⟩ := out <;> rfl

/-- The state after an undo is that of undoing the newest batch. -/
theorem undo_state (h : History) (m : Machine ω) (p : Policy σ ω) (r : Run.State σ ω) :
    (h.undo m p r).2.2 = match h.done with
      | [] => r
      | b :: _ => (b.undo m p r).2 := by
  rw [undo]
  cases h.done with
  | nil => rfl
  | cons b rest =>
      simp only
      split <;> rfl

/-- What comes back from an undo is what was undone of the newest batch. -/
theorem undo_of_toUndo? {h : History} {b : Batch} (newest : h.toUndo? = some b) (m : Machine ω)
    (p : Policy σ ω) (r : Run.State σ ω) :
    (h.undo m p r).1 = (b.undo m p r).1.ran ∧ (h.undo m p r).2.2 = (b.undo m p r).2 := by
  obtain ⟨rest, done⟩ := List.head?_eq_some_iff.1 newest
  rw [undo, done]
  dsimp only
  generalize b.undo m p r = out
  obtain ⟨⟨_ | ran, left⟩, r'⟩ := out <;> exact ⟨rfl, rfl⟩

theorem redo_state (h : History) (m : Machine ω) (p : Policy σ ω) (r : Run.State σ ω) :
    (h.redo m p r).2.2 = match h.undone with
      | [] => r
      | b :: _ => (b.redo m p r).2 := by
  rw [redo]
  cases h.undone with
  | nil => rfl
  | cons b rest =>
      simp only
      split <;> rfl

/-- A call leaves the place where the run of its commands ends. -/
theorem call_place (h : History) (m : Machine ω) (p : Policy σ ω) (r : Run.State σ ω) (call : Call) :
    (h.call m p r call).2.place =
      (Run.commands m p (h.running call).1 (h.running call).2 r).2.place := by
  cases call with
  | execute b => exact congrArg Run.State.place (h.execute_state m p b r)
  | undo =>
      refine (congrArg Run.State.place (h.undo_state m p r)).trans ?_
      rw [running, toUndo?]
      cases h.done <;> rfl
  | redo =>
      refine (congrArg Run.State.place (h.redo_state m p r)).trans ?_
      rw [running, toRedo?]
      cases h.undone <;> rfl

end History

/-- Some commands of a batch, at least one, in their order. -/
structure Batch.PartOf (part b : Batch) : Prop where
  kind : part.kind = b.kind
  some_command : part.commands ≠ []
  commands : part.commands.Sublist b.commands

theorem Batch.partOf_of_part? {b part : Batch} {cs : List Command} (some_part : b.part? cs = some part)
    (fewer : cs.Sublist b.commands) : part.PartOf b := by
  rw [Batch.part?] at some_part
  split at some_part
  · cases some_part
  · next some_command =>
    cases some_part
    exact ⟨rfl, by simpa using some_command, fewer⟩

theorem Batch.PartOf.isRecorded {part b : Batch} (part_of : part.PartOf b) :
    part.isRecorded = b.isRecorded := by
  rw [Batch.isRecorded, part_of.kind, Batch.isRecorded]

section

variable {σ ω : Type} (b : Batch) (m : Machine ω) (p : Policy σ ω) (r : Run.State σ ω)

theorem Batch.execute_part {ran : Batch} (some_ran : (b.execute m p r).1 = some ran) :
    ran.PartOf b :=
  Batch.partOf_of_part? some_ran (Run.parts_sublist ..).1

theorem Batch.redo_parts : (∀ part ∈ (b.redo m p r).1.ran, part.PartOf b) ∧
    ∀ part ∈ (b.redo m p r).1.left, part.PartOf b :=
  ⟨fun _ some_part => Batch.partOf_of_part? some_part (Run.parts_sublist ..).1,
    fun _ some_part => Batch.partOf_of_part? some_part (Run.parts_sublist ..).2⟩

theorem Batch.undo_parts : (∀ part ∈ (b.undo m p r).1.ran, part.PartOf b) ∧
    ∀ part ∈ (b.undo m p r).1.left, part.PartOf b := by
  obtain ⟨done, left⟩ := Run.parts_sublist m p true b.commands.reverse
    { r with report := { r.report with total := r.report.total + b.commands.reverse.length } }
  constructor
  · exact fun part some_part => Batch.partOf_of_part? some_part (List.reverse_sublist.1 (by simpa using done))
  · exact fun part some_part => Batch.partOf_of_part? some_part (List.reverse_sublist.1 (by simpa using left))

end

namespace History

variable {σ ω : Type} {h h' : History} {call : Call} {ran : Option Batch}

/-- The batch that a call gives back: what of the batch it is about ran. -/
def ran? (h : History) (m : Machine ω) (p : Policy σ ω) (r : Run.State σ ω) : Call → Option Batch
  | .execute b => (b.execute m p r).1
  | .undo => (h.undo m p r).1
  | .redo => (h.redo m p r).1

/-- A batch that was executed is on top of the history. -/
theorem execute_ran? (h : History) (m : Machine ω) (p : Policy σ ω) (b : Batch) (r : Run.State σ ω) :
    (h.execute m p b r).1 = (h.ran? m p r (.execute b)).isSome ∧
      ((h.ran? m p r (.execute b)).isSome = true →
        (h.execute m p b r).2.1.toUndo? = h.ran? m p r (.execute b)) := by
  rw [execute, ran?]
  generalize b.execute m p r = out
  obtain ⟨_ | ran, r'⟩ := out
  · exact ⟨rfl, fun some_ran => absurd some_ran Bool.false_ne_true⟩
  · refine ⟨rfl, fun _ => ?_⟩
    obtain ⟨rest, newest⟩ := take_cons_of_limit (h.settle ran).limit ran (h.settle ran).done
    exact congrArg List.head? newest

/-- A batch, or what was undone of it, comes on top of the undone ones. -/
def putBack (h : History) (b : Batch) : Option Batch → History
  | none => h
  | some ran => { h.settle b with undone := ran :: (h.settle b).undone }

/-- A batch, or what was redone of it, comes on top of the done ones. -/
def putUp (h : History) (b : Batch) : Option Batch → History
  | none => h
  | some ran => { h.settle b with done := ran :: (h.settle b).done }.prune

/-- What a call can do to a history, and what it gives back. -/
inductive Step : Call → Option Batch → History → History → Prop
  /-- There is nothing to undo or redo, or nothing of a new batch ran. -/
  | idle (call : Call) (h : History) : Step call none h h
  /-- A part of a new batch ran. -/
  | executed {b ran : Batch} (part : ran.PartOf b) (h : History) :
      Step (.execute b) (some ran) h ({ h with undone := [] }.putUp ran (some ran))
  /-- The newest done batch was undone, or a part of it. -/
  | undone {b : Batch} {rest undone : List Batch} {limit : Nat} {left ran : Option Batch}
      (left_part : ∀ part ∈ left, part.PartOf b) (part : ∀ part ∈ ran, part.PartOf b) :
      Step .undo ran ⟨b :: rest, undone, limit⟩
        (putBack ⟨left.toList ++ rest, undone, limit⟩ b ran)
  /-- The newest undone batch was redone, or a part of it. -/
  | redone {b : Batch} {done rest : List Batch} {limit : Nat} {left ran : Option Batch}
      (left_part : ∀ part ∈ left, part.PartOf b) (part : ∀ part ∈ ran, part.PartOf b) :
      Step .redo ran ⟨done, b :: rest, limit⟩
        (putUp ⟨done, left.toList ++ rest, limit⟩ b ran)

/-- Every call takes such a step. -/
theorem step_call (h : History) (m : Machine ω) (p : Policy σ ω) (r : Run.State σ ω) (call : Call) :
    Step call (h.ran? m p r call) h (h.call m p r call).1 := by
  obtain ⟨done, undone, limit⟩ := h
  cases call with
  | execute b =>
      have part : ∀ ran ∈ (b.execute m p r).1, ran.PartOf b := fun _ => b.execute_part m p r
      rw [History.call, ran?, execute]
      generalize b.execute m p r = out at part ⊢
      obtain ⟨_ | ran, r'⟩ := out
      · exact .idle _ _
      · have step := Step.executed (part ran rfl) ⟨done, undone, limit⟩
        rw [putUp, settle] at step
        dsimp only [settle]
        cases recorded : ran.isRecorded <;> rw [recorded] at step <;> exact step
  | undo =>
      rw [History.call, ran?, undo]
      cases done with
      | nil => exact .idle _ _
      | cons b rest =>
          obtain ⟨part, left_part⟩ := b.undo_parts m p r
          dsimp only
          generalize b.undo m p r = out at part left_part ⊢
          obtain ⟨⟨ran, left⟩, r'⟩ := out
          have step : Step .undo ran ⟨b :: rest, undone, limit⟩ _ := .undone left_part part
          cases ran <;> exact step
  | redo =>
      rw [History.call, ran?, redo]
      cases undone with
      | nil => exact .idle _ _
      | cons b rest =>
          obtain ⟨part, left_part⟩ := b.redo_parts m p r
          dsimp only
          generalize b.redo m p r = out at part left_part ⊢
          obtain ⟨⟨ran, left⟩, r'⟩ := out
          have step : Step .redo ran ⟨done, b :: rest, limit⟩ _ := .redone left_part part
          cases ran <;> exact step

/-! ## What holds of all batches -/

section

variable {P : Batch → Prop} {b : Batch}

/-- All batches of a history, done and undone. -/
def batches (h : History) : List Batch :=
  h.done ++ h.undone

@[simp] theorem settle_limit (h : History) (b : Batch) : (h.settle b).limit = h.limit := by
  rw [settle]
  split <;> rfl

theorem settle_sublist (h : History) (b : Batch) :
    (h.settle b).done.Sublist h.done ∧ (h.settle b).undone.Sublist h.undone := by
  rw [settle]
  split
  · exact ⟨List.filter_sublist, List.filter_sublist⟩
  · exact ⟨List.Sublist.refl _, List.Sublist.refl _⟩

theorem forall_settle (each : ∀ b ∈ h.batches, P b) (b : Batch) :
    ∀ b' ∈ (h.settle b).batches, P b' := by
  obtain ⟨done, undone⟩ := h.settle_sublist b
  intro b' member
  exact each b' ((done.append undone).subset member)

theorem forall_undone (each : ∀ b ∈ h.batches, P b) (own : P b) :
    ∀ b' ∈ batches { h with undone := b :: h.undone }, P b' := by
  obtain ⟨done, undone⟩ := List.forall_mem_append.1 each
  exact List.forall_mem_append.2 ⟨done, List.forall_mem_cons.2 ⟨own, undone⟩⟩

theorem forall_done (each : ∀ b ∈ h.batches, P b) (own : P b) :
    ∀ b' ∈ batches ({ h with done := b :: h.done }.prune), P b' := by
  obtain ⟨done, undone⟩ := List.forall_mem_append.1 each
  have pushed : ∀ b' ∈ b :: h.done, P b' := List.forall_mem_cons.2 ⟨own, done⟩
  exact List.forall_mem_append.2 ⟨fun b' member => pushed b' (List.mem_of_mem_take member), undone⟩

theorem forall_putBack (each : ∀ b ∈ h.batches, P b) (part : ∀ part ∈ ran, P part) :
    ∀ b' ∈ (h.putBack b ran).batches, P b' := by
  cases ran with
  | none => exact each
  | some ran => exact forall_undone (forall_settle each b) (part ran rfl)

theorem forall_putUp (each : ∀ b ∈ h.batches, P b) (part : ∀ part ∈ ran, P part) :
    ∀ b' ∈ (h.putUp b ran).batches, P b' := by
  cases ran with
  | none => exact each
  | some ran => exact forall_done (forall_settle each b) (part ran rfl)

/-- What holds of all batches goes on to hold, if it holds of parts of batches and of what
is kept of a new one. -/
theorem Step.forall (step : Step call ran h h')
    (closed : ∀ {part b : Batch}, part.PartOf b → P b → P part)
    (new : ∀ {part b : Batch}, call = .execute b → part.PartOf b → P part)
    (each : ∀ b ∈ h.batches, P b) : ∀ b ∈ h'.batches, P b := by
  cases step with
  | idle => exact each
  | executed part h =>
      refine forall_putUp ?_ fun _ same => Option.some.inj same ▸ new rfl part
      rw [batches, List.append_nil]
      exact (List.forall_mem_append.1 each).1
  | undone left_part part =>
      obtain ⟨own, others⟩ := List.forall_mem_cons.1 each
      refine forall_putBack ?_ fun ran same => closed (part ran same) own
      rw [batches, List.append_assoc, List.forall_mem_append]
      exact ⟨fun left member => closed (left_part left (Option.mem_toList.1 member)) own, others⟩
  | redone left_part part =>
      obtain ⟨done, undone⟩ := List.forall_mem_append.1 each
      obtain ⟨own, others⟩ := List.forall_mem_cons.1 undone
      refine forall_putUp ?_ fun ran same => closed (part ran same) own
      rw [batches, List.forall_mem_append, List.forall_mem_append]
      exact ⟨done, fun left member => closed (left_part left (Option.mem_toList.1 member)) own, others⟩

/-- What all batches have in common, the new one as well, what ran of one has too. -/
theorem Step.forall_ran (step : Step call ran h h')
    (closed : ∀ {part b : Batch}, part.PartOf b → P b → P part)
    (new : ∀ b, call = .execute b → P b) (each : ∀ b ∈ h.batches, P b) : ∀ part ∈ ran, P part := by
  cases step with
  | idle =>
      rintro _ ⟨⟩
  | executed part h =>
      rintro _ ⟨⟩
      exact closed part (new _ rfl)
  | undone left_part part =>
      have own := each _ (List.mem_append_left _ List.mem_cons_self)
      exact fun _ same => closed (part _ same) own
  | redone left_part part =>
      have own := each _ (List.mem_append_right _ List.mem_cons_self)
      exact fun _ same => closed (part _ same) own

end

/-! ## How much is kept -/

theorem putBack_limit (h : History) (b : Batch) (ran : Option Batch) :
    (h.putBack b ran).limit = h.limit := by
  cases ran with
  | none => rfl
  | some ran => exact h.settle_limit b

theorem putUp_limit (h : History) (b : Batch) (ran : Option Batch) :
    (h.putUp b ran).limit = h.limit := by
  cases ran with
  | none => rfl
  | some ran => exact h.settle_limit b

theorem Step.limit (step : Step call ran h h') : h'.limit = h.limit := by
  cases step with
  | idle => rfl
  | executed => exact putUp_limit ..
  | undone => exact putBack_limit ..
  | redone => exact putUp_limit ..

theorem length_prune (h : History) : h.prune.done.length ≤ max h.limit 1 :=
  List.length_take_le _ _

theorem putBack_size (size : h.done.length ≤ max h.limit 1) (b : Batch) (ran : Option Batch) :
    (h.putBack b ran).done.length ≤ max h.limit 1 := by
  cases ran with
  | none => exact size
  | some ran => exact (h.settle_sublist b).1.length_le.trans size

theorem putUp_size (size : h.done.length ≤ max h.limit 1) (b : Batch) (ran : Option Batch) :
    (h.putUp b ran).done.length ≤ max h.limit 1 := by
  cases ran with
  | none => exact size
  | some ran =>
      rw [← h.settle_limit b]
      exact length_prune _

/-- No more are done than may be kept. -/
theorem Step.size (step : Step call ran h h') (size : h.done.length ≤ max h.limit 1) :
    h'.done.length ≤ max h'.limit 1 := by
  have fewer : ∀ (left : Option Batch) (rest : List Batch),
      (left.toList ++ rest).length ≤ rest.length + 1 := by
    intro left rest
    cases left with
    | none => exact Nat.le_succ _
    | some left => exact le_refl _
  rw [step.limit]
  cases step with
  | idle => exact size
  | executed part h =>
      refine putUp_size ?_ _ _
      exact size
  | undone left_part part =>
      refine putBack_size ?_ _ _
      exact (fewer _ _).trans size
  | redone left_part part =>
      refine putUp_size ?_ _ _
      exact size

end History

end Renumber
