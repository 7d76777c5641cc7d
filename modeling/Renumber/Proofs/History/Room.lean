import Renumber.Proofs.History.Layers

/-!
# Room below edits

Edits and recorded batches share a stack that holds only so many. Edits lie on top of it, so
each of them takes the place of a recorded batch when there is no room left, and undoing it does
not bring that batch back.
-/

namespace Renumber.History

variable {h h' : History} {call : Call} {ran : Option Batch} {b : Batch} {bs : List Batch}

/-- How many edits can be undone. -/
def edits (h : History) : Nat :=
  h.done.countP fun b => !b.isRecorded

/-- The batch that a call is about, if there is one. -/
def batch? (h : History) : Call → Option Batch
  | .execute b => some b
  | .undo => h.toUndo?
  | .redo => h.toRedo?

/-- Among edits above files, the edits can be counted and the files picked out. -/
theorem layers_append {es fs : List Batch} (edits : ∀ b ∈ es, b.isRecorded = false)
    (files : ∀ b ∈ fs, b.isRecorded = true) :
    (es ++ fs).countP (fun b => !b.isRecorded) = es.length ∧
      (es ++ fs).filter Batch.isRecorded = fs := by
  constructor
  · rw [List.countP_append, List.countP_eq_length.2, List.countP_eq_zero.2, Nat.add_zero]
    · intro b member
      simp [files b member]
    · intro b member
      simp [edits b member]
  · rw [List.filter_append, List.filter_eq_nil_iff.2, List.nil_append, List.filter_eq_self.2 files]
    intro b member
    simp [edits b member]

/-- When only some batches are kept, the edits are kept first. -/
theorem files_take
    (stacked : bs.Pairwise fun newer older => newer.isRecorded = true → older.isRecorded = true) (n : Nat) :
    (bs.take n).filter Batch.isRecorded =
      (bs.filter Batch.isRecorded).take (n - (bs.take n).countP fun b => !b.isRecorded) := by
  obtain ⟨es, fs, rfl, edits, files⟩ := exists_layers stacked
  obtain ⟨-, all⟩ := layers_append edits files
  have edits_left : ∀ b ∈ es.take n, b.isRecorded = false :=
    fun b member => edits b (List.mem_of_mem_take member)
  have files_left : ∀ b ∈ fs.take (n - es.length), b.isRecorded = true :=
    fun b member => files b (List.mem_of_mem_take member)
  obtain ⟨count, some⟩ := layers_append edits_left files_left
  have same : n - (es.take n).length = n - es.length := by
    rw [List.length_take]
    omega
  rw [List.take_append, some, count, all, same]

theorem files_of_size {n : Nat} (size : bs.length ≤ n) : bs.filter Batch.isRecorded =
    (bs.filter Batch.isRecorded).take (n - bs.countP fun b => !b.isRecorded) := by
  have both := List.length_eq_countP_add_countP Batch.isRecorded (l := bs)
  rw [List.countP_eq_length_filter] at both
  refine (List.take_of_length_le ?_).symm
  simp only [Bool.not_eq_true, Bool.decide_eq_false] at both
  omega

theorem filter_toList_append {part : Option Batch} (edit : ∀ b ∈ part, b.isRecorded = false)
    (bs : List Batch) : (part.toList ++ bs).filter Batch.isRecorded = bs.filter Batch.isRecorded := by
  cases part with
  | none => rfl
  | some b => exact List.filter_cons_of_neg (by simp [edit b rfl])

/-- Undoing an edit leaves the done batches alone. -/
theorem putBack_edit (edit : b.isRecorded = false) (ran : Option Batch) :
    (h.putBack b ran).done = h.done := by
  cases ran with
  | none => rfl
  | some ran =>
      rw [putBack, settle_of_edit edit]

/-- A batch that is an edit comes on top, if any of it ran. -/
theorem putUp_edit (edit : b.isRecorded = false) (size : h.done.length ≤ max h.limit 1)
    (ran : Option Batch) : (h.putUp b ran).done = (ran.toList ++ h.done).take (max h.limit 1) := by
  cases ran with
  | none => exact (List.take_of_length_le size).symm
  | some ran =>
      rw [putUp, settle_of_edit edit]
      rfl

theorem files_putUp (layered : h.Layered) (size : h.done.length ≤ max h.limit 1)
    (edit : b.isRecorded = false) (part : ∀ part ∈ ran, part.isRecorded = false) :
    (h.putUp b ran).done.filter Batch.isRecorded =
      (h.done.filter Batch.isRecorded).take (max h.limit 1 - (h.putUp b ran).edits) := by
  have stacked : (ran.toList ++ h.done).Pairwise
      fun newer older => newer.isRecorded = true → older.isRecorded = true := by
    cases ran with
    | none => exact layered.stacked
    | some ran =>
        refine List.pairwise_cons.2 ⟨fun older _ recorded => ?_, layered.stacked⟩
        exact absurd recorded (by simp [part ran rfl])
  rw [edits, putUp_edit edit size, files_take stacked, filter_toList_append part]

/-- A call about an edit leaves as many of the recorded batches as there is room for below the
edits, the newest ones. -/
theorem Step.files (step : Step call ran h h') (layered : h.Layered)
    (size : h.done.length ≤ max h.limit 1) (edit : ∀ b ∈ h.batch? call, b.isRecorded = false) :
    h'.done.filter Batch.isRecorded =
      (h.done.filter Batch.isRecorded).take (max h.limit 1 - h'.edits) := by
  have parts : ∀ {b : Batch} {ran : Option Batch}, b.isRecorded = false → (∀ part ∈ ran, part.PartOf b) →
      ∀ part ∈ ran, part.isRecorded = false :=
    fun edit each part member => ((each part member).isRecorded).trans edit
  have after : h'.done.length ≤ max h.limit 1 := step.limit ▸ step.size size
  cases step with
  | idle => exact files_of_size size
  | @executed b ran part h =>
      have own : ran.isRecorded = false := part.isRecorded.trans (edit b rfl)
      have cleared : History.Layered { h with undone := [] } := ⟨layered.stacked, nofun⟩
      refine files_putUp cleared size own ?_
      rintro _ ⟨rfl⟩
      exact own
  | @undone b rest undone limit left ran left_part part =>
      have own := edit b rfl
      have files : (left.toList ++ rest).filter Batch.isRecorded = rest.filter Batch.isRecorded :=
        filter_toList_append (parts own left_part) rest
      rw [putBack_edit own] at after
      rw [edits, putBack_edit own, files_of_size after, files, List.filter_cons_of_neg (by simp [own])]
  | @redone b done rest limit left ran left_part part =>
      have own := edit b rfl
      exact files_putUp (layered.left_undone left_part) size own (parts own part)

end Renumber.History
