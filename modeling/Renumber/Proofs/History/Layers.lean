import Renumber.Proofs.History.Reload

/-!
# Edits above files

Edits belong to the files as they are, so none may outlive a move. In a history that is
reached by calls the recorded batches lie below the edits, and while one of them can be
redone there are no edits at all. Neither of these facts is kept by itself: an edit that
is redone comes above the recorded batches only because no recorded batch is undone with
it, and a recorded batch that is undone takes all edits along only because it lies below
them.
-/

namespace Renumber.History

variable {h h' : History} {call : Call} {ran : Option Batch} {b : Batch}

/-- There are no edits. -/
def OnlyFiles (h : History) : Prop :=
  ∀ b ∈ h.batches, b.isRecorded = true

/-- Recorded batches lie below edits, and there are no edits while one is undone. -/
structure Layered (h : History) : Prop where
  stacked : h.done.Pairwise fun newer older => newer.isRecorded = true → older.isRecorded = true
  apart : (∃ b ∈ h.undone, b.isRecorded = true) → h.OnlyFiles

theorem OnlyFiles.layered (only : h.OnlyFiles) : h.Layered := by
  constructor
  · refine List.Pairwise.imp_of_mem ?_ (List.pairwise_of_forall fun _ _ => trivial)
    intro _ older _ member _ _
    exact only older (List.mem_append_left _ member)
  · exact fun _ => only

/-- While there is an edit, no recorded batch can be redone. -/
theorem Layered.undone_of_edit (layered : h.Layered) (member : b ∈ h.batches)
    (edit : b.isRecorded = false) : ∀ b ∈ h.undone, b.isRecorded = false := by
  intro b' inside
  by_contra recorded
  have only := layered.apart ⟨b', inside, by simpa using recorded⟩
  rw [only b member] at edit
  cases edit

theorem settle_of_edit (edit : b.isRecorded = false) (h : History) : h.settle b = h := by
  rw [settle, edit]
  rfl

theorem onlyFiles_settle (recorded : b.isRecorded = true) (h : History) :
    (h.settle b).OnlyFiles := by
  rw [settle, if_pos recorded, OnlyFiles, batches, List.forall_mem_append]
  constructor
  · exact fun _ member => (List.mem_filter.1 member).2
  · exact fun _ member => (List.mem_filter.1 member).2

/-- A batch gives way to a part of it. -/
theorem Layered.left_done {rest undone : List Batch} {limit : Nat} {left : Option Batch}
    (layered : History.Layered ⟨b :: rest, undone, limit⟩) (part : ∀ part ∈ left, part.PartOf b) :
    History.Layered ⟨left.toList ++ rest, undone, limit⟩ := by
  obtain ⟨below, stacked⟩ := List.pairwise_cons.1 layered.stacked
  cases left with
  | none =>
      refine ⟨stacked, fun recorded => ?_⟩
      exact (List.forall_mem_cons.1 (layered.apart recorded)).2
  | some left =>
      have same := (part left rfl).isRecorded
      constructor
      · exact List.pairwise_cons.2 ⟨fun older member => same ▸ below older member, stacked⟩
      · intro recorded
        obtain ⟨own, others⟩ := List.forall_mem_cons.1 (layered.apart recorded)
        exact List.forall_mem_cons.2 ⟨same.trans own, others⟩

theorem Layered.left_undone {done rest : List Batch} {limit : Nat} {left : Option Batch}
    (layered : History.Layered ⟨done, b :: rest, limit⟩) (part : ∀ part ∈ left, part.PartOf b) :
    History.Layered ⟨done, left.toList ++ rest, limit⟩ := by
  refine ⟨layered.stacked, ?_⟩
  rintro ⟨b', member, recorded⟩
  have same : ∀ part ∈ left.toList, part.isRecorded = b.isRecorded := by
    intro left member
    exact (part left (Option.mem_toList.1 member)).isRecorded
  have some_recorded : ∃ b' ∈ b :: rest, b'.isRecorded = true := by
    obtain own | other := List.mem_append.1 member
    · exact ⟨b, List.mem_cons_self, (same b' own).symm.trans recorded⟩
    · exact ⟨b', List.mem_cons_of_mem _ other, recorded⟩
  obtain ⟨only_done, only_undone⟩ := List.forall_mem_append.1 (layered.apart some_recorded)
  obtain ⟨own, others⟩ := List.forall_mem_cons.1 only_undone
  apply List.forall_mem_append.2 ⟨only_done, List.forall_mem_append.2 ⟨?_, others⟩⟩
  exact fun left member => (same left member).trans own

/-- An edit that is undone comes among undone edits, and a recorded batch among recorded
ones only. -/
theorem Layered.putBack (layered : h.Layered) (part : ∀ part ∈ ran, part.PartOf b)
    (edits : b.isRecorded = false → ∀ b ∈ h.undone, b.isRecorded = false) :
    (h.putBack b ran).Layered ∧ ∀ part ∈ ran, part.isRecorded = true → (h.putBack b ran).OnlyFiles := by
  cases ran with
  | none => exact ⟨layered, nofun⟩
  | some ran =>
      have same := (part ran rfl).isRecorded
      cases recorded : b.isRecorded with
      | true =>
          have only : (h.putBack b (some ran)).OnlyFiles :=
            forall_undone (onlyFiles_settle recorded h) (same.trans recorded)
          exact ⟨only.layered, fun _ _ _ => only⟩
      | false =>
          rw [recorded] at same
          rw [History.putBack, settle_of_edit recorded]
          refine ⟨⟨layered.stacked, ?_⟩, ?_⟩
          · rintro ⟨b', member, is_recorded⟩
            obtain rfl | other := List.mem_cons.1 member
            · exact absurd is_recorded (by simp [same])
            · exact absurd is_recorded (by simp [edits recorded b' other])
          · rintro _ ⟨rfl⟩ is_recorded
            exact absurd is_recorded (by simp [same])

/-- An edit that is done comes above all others, and a recorded batch among recorded ones
only. -/
theorem Layered.putUp (layered : h.Layered) (part : ∀ part ∈ ran, part.PartOf b)
    (edits : b.isRecorded = false → ∀ b ∈ h.undone, b.isRecorded = false) :
    (h.putUp b ran).Layered ∧ ∀ part ∈ ran, part.isRecorded = true → (h.putUp b ran).OnlyFiles := by
  cases ran with
  | none => exact ⟨layered, nofun⟩
  | some ran =>
      have same := (part ran rfl).isRecorded
      cases recorded : b.isRecorded with
      | true =>
          have only : (h.putUp b (some ran)).OnlyFiles :=
            forall_done (onlyFiles_settle recorded h) (same.trans recorded)
          exact ⟨only.layered, fun _ _ _ => only⟩
      | false =>
          rw [recorded] at same
          rw [History.putUp, settle_of_edit recorded]
          have edit : ¬ran.isRecorded = true := by simp [same]
          refine ⟨⟨?_, ?_⟩, ?_⟩
          · have stacked := List.pairwise_cons.2
              ⟨fun older _ is_recorded => absurd is_recorded edit, layered.stacked⟩
            exact stacked.sublist (List.take_sublist _ _)
          · rintro ⟨b', member, is_recorded⟩
            exact absurd is_recorded (by simp [edits recorded b' member])
          · rintro _ ⟨rfl⟩ is_recorded
            exact absurd is_recorded edit

/-- A call keeps the layers apart, and leaves no edits where a recorded batch ran. -/
theorem Layered.step (layered : h.Layered) (step : Step call ran h h') :
    h'.Layered ∧ ∀ part ∈ ran, part.isRecorded = true → h'.OnlyFiles := by
  cases step with
  | idle => exact ⟨layered, nofun⟩
  | executed part h =>
      have cleared : History.Layered { h with undone := [] } := ⟨layered.stacked, nofun⟩
      refine cleared.putUp ?_ fun _ => List.forall_mem_nil _
      rintro _ ⟨rfl⟩
      exact ⟨rfl, part.some_command, List.Sublist.refl _⟩
  | undone left_part part =>
      refine (layered.left_done left_part).putBack part fun edit => ?_
      exact layered.undone_of_edit List.mem_cons_self edit
  | redone left_part part =>
      refine (layered.left_undone left_part).putUp part fun edit => ?_
      have others := layered.undone_of_edit (List.mem_append_right _ List.mem_cons_self) edit
      apply List.forall_mem_append.2 ⟨?_, (List.forall_mem_cons.1 others).2⟩
      exact fun left member => ((left_part left (Option.mem_toList.1 member)).isRecorded).trans edit

theorem layered_load (log : Path) (limit : Nat) (w : World) :
    ((load log limit).run w).1.Layered := by
  obtain ⟨done, undone⟩ := load_loaded log limit w
  have only : ((load log limit).run w).1.OnlyFiles := List.forall_mem_append.2
    ⟨fun b member => (done b member).recorded, fun b member => (undone b member).recorded⟩
  exact only.layered

theorem Reachable.layered (reachable : h.Reachable) : h.Layered := by
  induction reachable with
  | empty limit => exact ⟨List.Pairwise.nil, nofun⟩
  | load log limit w => exact layered_load log limit w
  | call before m p r call layered => exact (layered.step (step_call _ m p r call)).1
  | clear before layered => exact ⟨List.Pairwise.nil, nofun⟩

/-- Where no edit lies below a recorded batch there are first the edits and then the others. -/
theorem exists_layers {bs : List Batch}
    (stacked : bs.Pairwise fun newer older => newer.isRecorded = true → older.isRecorded = true) :
    ∃ edits files, bs = edits ++ files ∧ (∀ b ∈ edits, b.isRecorded = false) ∧
      ∀ b ∈ files, b.isRecorded = true := by
  induction bs with
  | nil => exact ⟨[], [], rfl, List.forall_mem_nil _, List.forall_mem_nil _⟩
  | cons b rest ih =>
      obtain ⟨below, stacked⟩ := List.pairwise_cons.1 stacked
      cases recorded : b.isRecorded with
      | true =>
          refine ⟨[], b :: rest, rfl, List.forall_mem_nil _, ?_⟩
          exact List.forall_mem_cons.2 ⟨recorded, fun older member => below older member recorded⟩
      | false =>
          obtain ⟨edits, files, rfl, are_edits, are_files⟩ := ih stacked
          exact ⟨b :: edits, files, rfl, List.forall_mem_cons.2 ⟨recorded, are_edits⟩, are_files⟩

/-- In every history that is reached by calls, whatever they run and however that ends, and
by clearing: no more batches are done than may be kept, and calls do not change how many
that are; no batch is empty; the done batches are edits above recorded ones; there are no
edits while a recorded batch can be redone, nor after a call in which a recorded batch ran;
and a batch of which nothing ran leaves the history as it was. -/
theorem Reachable.stacks (reachable : h.Reachable) :
    (h.done.length ≤ max h.limit 1 ∧
      ∀ {σ ω : Type} (m : Machine ω) (p : Policy σ ω) (r : Run.State σ ω) (call : Call),
        (h.call m p r call).1.limit = h.limit) ∧
    (∀ b ∈ h.batches, b.commands ≠ []) ∧
    (∃ edits files, h.done = edits ++ files ∧ (∀ b ∈ edits, b.isRecorded = false) ∧
      ∀ b ∈ files, b.isRecorded = true) ∧
    ((∃ b ∈ h.undone, b.isRecorded = true) → ∀ b ∈ h.batches, b.isRecorded = true) ∧
    (∀ {σ ω : Type} (m : Machine ω) (p : Policy σ ω) (r : Run.State σ ω) (call : Call),
      ∀ ran ∈ h.ran? m p r call, ran.isRecorded = true →
        ∀ b ∈ (h.call m p r call).1.batches, b.isRecorded = true) ∧
    ∀ {σ ω : Type} (m : Machine ω) (p : Policy σ ω) (b : Batch) (r : Run.State σ ω),
      (h.execute m p b r).1 = false → (h.execute m p b r).2.1 = h := by
  have tidy := reachable.tidy
  have layered := reachable.layered
  refine ⟨⟨tidy.size, ?_⟩, ?_, exists_layers layered.stacked, layered.apart, ?_, ?_⟩
  · intro σ ω m p r call
    exact (step_call h m p r call).limit
  · exact List.forall_mem_append.2 ⟨tidy.done, tidy.undone⟩
  · intro σ ω m p r call
    exact (layered.step (step_call h m p r call)).2
  · intro σ ω m p b r nothing
    rw [execute] at nothing ⊢
    generalize b.execute m p r = out at nothing ⊢
    obtain ⟨_ | ran, r'⟩ := out
    · rfl
    · cases nothing

/-- An edit above a rename, and then the rename alone, are undone. The edit cannot be redone
then. -/
theorem stacks_renameUndone :
    let rename : Batch :=
      { kind := .rename, commands := [.rename (.ofString "/w/a") (.ofString "/w/b")] }
    let edit : Batch := { kind := .edit, commands := [.edit
      ⟨.ofString "/w/b", .ofString "/w/b", .ofString "/w/c"⟩] }
    let h := afterCalls [.execute rename, .execute edit, .undo]
    h.done = [rename] ∧ h.undone = [edit] ∧
      ∀ b ∈ (h.call obliging (.fixed false : Policy Unit Unit) ⟨(), (), {}⟩ .undo).1.batches,
        b.isRecorded = true := by
  intro rename edit h
  have reachable : h.Reachable := reachable_afterCalls _
  obtain ⟨-, -, -, -, files, -⟩ := reachable.stacks
  refine ⟨by decide +kernel, by decide +kernel, ?_⟩
  exact files obliging (.fixed false : Policy Unit Unit) ⟨(), (), {}⟩ .undo rename
    (by decide +kernel) (by decide)

end Renumber.History
