import Renumber.History.Basic
import Renumber.Proofs.Run.Accounts

/-!
# Batches that are undone or redone in part

Undoing or redoing a batch parts its commands, whatever they do. Those that ran go over to
the other stack, as a batch in the old order that is otherwise the same; the others stay
behind in the same way. So no command is lost and none is on both stacks.
-/

namespace Renumber

variable {σ ω : Type}

namespace Batch

theorem size_part? (b : Batch) (cs : List Command) : ((b.part? cs).map size).getD 0 = cs.length := by
  rw [part?]
  split
  · next empty =>
    rw [List.isEmpty_iff.1 empty]
    rfl
  · rfl

theorem isSome_part? (b : Batch) (cs : List Command) : (b.part? cs).isSome = true ↔ cs ≠ [] := by
  rw [part?]
  split
  · next empty => simp [List.isEmpty_iff.1 empty]
  · next some_command => simpa using some_command

/-- What becomes of the commands of a batch, in its order, when it is redone or, last
command first, undone. -/
def courses (b : Batch) (m : Machine ω) (p : Policy σ ω) (inverse : Bool) (r : Run.State σ ω) :
    List (List (Command × ω)) :=
  if inverse then (Run.courses m p true b.commands.reverse r.answers r.place).reverse
  else Run.courses m p false b.commands r.answers r.place

/-- The commands of a batch, or their inverses, that run in the end, and the others. -/
def parts (b : Batch) (m : Machine ω) (p : Policy σ ω) (inverse : Bool) (r : Run.State σ ω) : Run.Parts :=
  .sift ((b.courses m p inverse r).map m.succeeds) b.commands

/-- The commands of a batch are parted without loss, each part in the order of the batch,
all attempts are at the commands or their inverses, and a report counts the parts. -/
structure Parted (b : Batch) (inverse : Bool) (courses : List (List (Command × ω)))
    (parts : Run.Parts) (before after : Report) : Prop where
  length : courses.length = b.commands.length
  attempts : ∀ t ∈ b.commands.zip courses, ∀ attempt ∈ t.2, attempt.1 = Run.directed inverse t.1
  splits : parts.Splits b.commands
  executed : after.executed = before.executed + parts.done.length
  left : after.failed.length + after.skipped =
    before.failed.length + before.skipped + parts.left.length

section

variable (b : Batch) (m : Machine ω) (p : Policy σ ω) (r : Run.State σ ω)

theorem redo_parted : (b.redo m p r).1 = b.split (b.parts m p false r) ∧
    b.Parted false (b.courses m p false r) (b.parts m p false r) r.report (b.redo m p r).2.report := by
  have account := Run.steps_account m p false b.commands
    { r with report := { r.report with total := r.report.total + b.commands.length } }
  have sifted : (Run.commands m p false b.commands r).1 = b.parts m p false r := account.sifted
  rw [redo, ← sifted]
  exact ⟨rfl, account.length, account.attempts, account.splits, account.executed, account.left⟩

/-- The inverses run in the opposite order, and each part is turned round again. -/
theorem undo_parted : (b.undo m p r).1 = b.split (b.parts m p true r) ∧
    b.Parted true (b.courses m p true r) (b.parts m p true r) r.report (b.undo m p r).2.report := by
  have account := Run.steps_account m p true b.commands.reverse
    { r with report := { r.report with total := r.report.total + b.commands.reverse.length } }
  have turned : (b.courses m p true r).reverse = Run.courses m p true b.commands.reverse r.answers r.place :=
    List.reverse_reverse _
  have length : (b.courses m p true r).length = b.commands.length := by
    have length := account.length
    rwa [← turned, List.length_reverse, List.length_reverse] at length
  have same : ((b.courses m p true r).map m.succeeds).length = b.commands.length := by
    rw [List.length_map, length]
  have sifted : (Run.commands m p true b.commands.reverse r).1 =
      ⟨(b.parts m p true r).done.reverse, (b.parts m p true r).left.reverse⟩ := by
    rw [parts, ← Run.Parts.sift_reverse same, ← List.map_reverse, turned]
    exact account.sifted
  refine ⟨?_, length, fun t member => ?_, Run.Parts.splits_sift same, ?_, ?_⟩
  · rw [undo]
    simp only [sifted, List.reverse_reverse]
  · refine account.attempts t ?_
    rw [← turned, Run.Parts.zip_reverse length.symm]
    exact List.mem_reverse.2 member
  · have executed : (b.undo m p r).2.report.executed =
        r.report.executed + (Run.commands m p true b.commands.reverse r).1.done.length := account.executed
    rw [executed, sifted, List.length_reverse]
  · have left : (b.undo m p r).2.report.failed.length + (b.undo m p r).2.report.skipped =
        r.report.failed.length + r.report.skipped +
          (Run.commands m p true b.commands.reverse r).1.left.length := account.left
    rw [left, sifted, List.length_reverse]

end

/-- What stays of others beside a batch of which something ran, or nothing: edits are
forgotten once a recorded batch ran. -/
def beside (b : Batch) (ran : Option Batch) (others : List Batch) : List Batch :=
  if b.isRecorded && ran.isSome then others.filter isRecorded else others

theorem beside_none (b : Batch) (others : List Batch) : b.beside none others = others := by
  rw [beside, Option.isSome_none, Bool.and_false, if_neg Bool.false_ne_true]

theorem beside_some (b ran : Batch) (others : List Batch) :
    b.beside (some ran) others = if b.isRecorded then others.filter isRecorded else others := by
  rw [beside, Option.isSome_some, Bool.and_true]

/-- A part of the batch itself stays. -/
theorem beside_part (b : Batch) (ran : Option Batch) (cs : List Command) (others : List Batch) :
    b.beside ran ((b.part? cs).toList ++ others) = (b.part? cs).toList ++ b.beside ran others := by
  rw [beside, beside]
  split
  · next forgets =>
    have recorded : b.isRecorded = true := (Bool.and_eq_true_iff.1 forgets).1
    rw [List.filter_append, part?]
    split
    · rfl
    · exact congrArg (· ++ _) (List.filter_cons_of_pos recorded)
  · rfl

end Batch

namespace History

theorem settle_beside (h : History) (b ran : Batch) :
    h.settle b = ⟨b.beside (some ran) h.done, b.beside (some ran) h.undone, h.limit⟩ := by
  rw [settle, b.beside_some, b.beside_some]
  split <;> rfl

variable {h : History} {b : Batch} {others : List Batch} (m : Machine ω) (p : Policy σ ω)
  (r : Run.State σ ω)

/-- What was undone of the newest batch goes over to the undone ones, and the rest of it
stays. -/
theorem undo_split (newest : h.done = b :: others) :
    h.undo m p r =
      let parts := b.parts m p true r
      let ran := b.part? parts.done
      (ran, ⟨(b.part? parts.left).toList ++ b.beside ran others, ran.toList ++ b.beside ran h.undone,
        h.limit⟩, (b.undo m p r).2) := by
  have split := (b.undo_parted m p r).1
  rw [undo, newest]
  dsimp only
  generalize b.undo m p r = out at split ⊢
  obtain ⟨_, r'⟩ := out
  dsimp only at split ⊢
  subst split
  rw [Batch.split]
  dsimp only
  cases b.part? (b.parts m p true r).done with
  | none => rw [b.beside_none, b.beside_none]; rfl
  | some ran =>
      simp only [settle_beside _ b ran, b.beside_part]
      rfl

/-- What was redone of the newest undone batch goes over to the done ones, of which the
oldest may be forgotten then, and the rest of it stays. -/
theorem redo_split (newest : h.undone = b :: others) :
    h.redo m p r =
      let parts := b.parts m p false r
      let ran := b.part? parts.done
      let h' : History := ⟨ran.toList ++ b.beside ran h.done,
        (b.part? parts.left).toList ++ b.beside ran others, h.limit⟩
      (ran, if ran.isSome then h'.prune else h', (b.redo m p r).2) := by
  have split := (b.redo_parted m p r).1
  rw [redo, newest]
  dsimp only
  generalize b.redo m p r = out at split ⊢
  obtain ⟨_, r'⟩ := out
  dsimp only at split ⊢
  subst split
  rw [Batch.split]
  dsimp only
  cases b.part? (b.parts m p false r).done with
  | none => rw [b.beside_none, b.beside_none]; rfl
  | some ran =>
      simp only [settle_beside _ b ran, b.beside_part]
      rfl

end History

end Renumber
