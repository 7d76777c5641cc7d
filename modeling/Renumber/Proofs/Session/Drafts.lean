import Renumber.Proofs.History.Room
import Renumber.Proofs.History.Unsaved
import Renumber.Proofs.Session.Reachable

/-!
# What edits cost

Edits are drafts: they are never written to a log, and when they are undone nothing is left of
them. But while they can be undone they stand on the same stack as the batches on files, and each
of them pushes the oldest of these off where the stack is full. So the log that is written in
the end holds the newest batches, as many as there was room for below the most edits that ever
stood above them.
-/

namespace Renumber

open UndoLog (redoPath)

namespace History

variable {h : History} {log : Path} {w w' : World}

/-- All that was done could be written, if a history was kept. -/
theorem whole_of_save (saved : (h.save log).run.run w = (.ok (), w')) :
    (UndoLog.write h.done.reverse).fault = none := by
  obtain ⟨v, first, -⟩ := save_eq_ok saved
  obtain ⟨u, -, -, whole⟩ := UndoLog.save_eq_ok first
  exact whole

end History

namespace Session

variable {σ : Type} {first session : Session} {most : Nat} {s s' : Sitting σ} {c : Conduct σ}
  {o : Operation} {w w' : World}

/-- The operation makes an edit, or undoes or redoes one. -/
def Operation.IsDraft (h : History) : Operation → Prop
  | .edit _ => True
  | .undo => ∀ b ∈ h.toUndo?, b.isRecorded = false
  | .redo => ∀ b ∈ h.toRedo?, b.isRecorded = false
  | .commitRenames | .commitTouch => False

instance (h : History) (o : Operation) : Decidable (o.IsDraft h) :=
  match o with
  | .edit _ => isTrue trivial
  | .undo => inferInstanceAs (Decidable (∀ b ∈ h.toUndo?, b.isRecorded = false))
  | .redo => inferInstanceAs (Decidable (∀ b ∈ h.toRedo?, b.isRecorded = false))
  | .commitRenames | .commitTouch => isFalse id

/-- Edits were tried, undone and redone, each under a conduct of its own and in any world. The
number tells how many of them stood on the history when there were most. -/
inductive Drafted (first : Session) : Nat → Session → Prop
  | start : Drafted first first.history.edits first
  | operation {σ : Type} {most : Nat} {s : Sitting σ} {o : Operation}
      (before : Drafted first most s.session) (c : Conduct σ) (draft : o.IsDraft s.session.history) :
      Drafted first (max most (o.run c s).session.history.edits) (o.run c s).session

theorem Operation.Asks.edit_of_isDraft {h : History} {call : History.Call} (asks : o.Asks call)
    (draft : o.IsDraft h) : ∀ b ∈ h.batch? call, b.isRecorded = false := by
  cases asks with
  | edit _ edit => exact fun _ same => Option.some.inj same ▸ edit
  | commitRenames => exact draft.elim
  | commitTouch => exact draft.elim
  | undo => exact draft
  | redo => exact draft

/-- One edit, undone, redone or new, leaves the newest of the recorded batches, as many as there
is room for below all edits. -/
theorem Asked.files (asked : Asked o c s s') (reached : s.session.Reached)
    (draft : o.IsDraft s.session.history) : s'.session.history.limit = s.session.history.limit ∧
      s'.session.history.done.filter Batch.isRecorded =
        (s.session.history.done.filter Batch.isRecorded).take
          (max s.session.history.limit 1 - s'.session.history.edits) := by
  have reachable := reached.reachable
  obtain same | ⟨call, r, asks, same⟩ := asked.history
  · rw [same]
    exact ⟨rfl, History.files_of_size reachable.tidy.size⟩
  · have step := s.session.history.step_call c.machine c.policy.onWorkspace r call
    rw [same]
    exact ⟨step.limit, step.files reachable.layered reachable.tidy.size (asks.edit_of_isDraft draft)⟩

/-- What edits leave of a session: its log, and the newest of the recorded batches. -/
structure Remains (first : Session) (most : Nat) (session : Session) : Prop where
  reached : session.Reached
  log : session.log = first.log
  limit : session.history.limit = first.history.limit
  files : session.history.done.filter Batch.isRecorded =
    (first.history.done.filter Batch.isRecorded).take (max first.history.limit 1 - most)

theorem Remains.operation (remains : Remains first most s.session) (c : Conduct σ)
    (draft : o.IsDraft s.session.history) :
    Remains first (max most (o.run c s).session.history.edits) (o.run c s).session := by
  have asked := o.asked c s
  obtain ⟨limit, files⟩ := asked.files remains.reached draft
  refine ⟨.operation remains.reached c o, asked.log.trans remains.log, limit.trans remains.limit, ?_⟩
  -- what once was pushed off stays away, so the least room there ever was counts
  have least : min (max first.history.limit 1 - (o.run c s).session.history.edits)
      (max first.history.limit 1 - most) =
        max first.history.limit 1 - max most (o.run c s).session.history.edits := by
    omega
  rw [files, remains.limit, remains.files, List.take_take, least]

theorem Drafted.remains (drafted : Drafted first most session) (reached : first.Reached) :
    Remains first most session := by
  induction drafted with
  | start => exact ⟨reached, rfl, rfl, History.files_of_size reached.reachable.tidy.size⟩
  | operation before c draft remains => exact remains.operation c draft

/-- When a session is kept after edits were made, undone and redone, the undo log is loaded as
the newest of the recorded batches that could be undone before: as many as there was room for
below the most edits that ever stood on the history, and all of them if there was room for all.
They are read as they would be from a log of their own, and this is without their tags but
otherwise as they were if there are dates for their times. -/
theorem Drafted.files_after_save (reached : first.Reached) (drafted : Drafted first most session)
    (saved : session.save.run.run w = (.ok (), w')) (legible : w'.Legible first.log)
    (apart : w'.numberOf? first.log ≠ w'.numberOf? (redoPath first.log)) :
    let files := (first.history.done.filter Batch.isRecorded).take (max first.history.limit 1 - most)
    let loaded := ((UndoLog.load first.log).run w').1
    loaded = UndoLog.reread files.reverse ∧
      ((∀ b ∈ files, b.HasDates) → loaded = (files.map UndoLog.untagged).reverse) := by
  intro files loaded
  have remains := drafted.remains reached
  have saved : (session.history.save first.log).run.run w = (.ok (), w') := remains.log ▸ saved
  have recorded : session.history.done.reverse.filter Batch.isRecorded = files.reverse := by
    rw [List.filter_reverse, remains.files]
  have read : loaded = UndoLog.reread session.history.done.reverse :=
    History.load_of_save saved legible apart
  refine ⟨by rw [read, ← UndoLog.reread_filter, recorded], fun dates => ?_⟩
  have some_command : ∀ b ∈ session.history.done.reverse, b.commands ≠ [] :=
    fun b member => remains.reached.reachable.tidy.done b (List.mem_reverse.1 member)
  have written : UndoLog.writable session.history.done.reverse = files.reverse := by
    rw [UndoLog.writable_of_fault (History.whole_of_save saved), History.filter_isWritten some_command,
      recorded]
  have dated : ∀ b ∈ UndoLog.writable session.history.done.reverse, b.IsDated := by
    intro b member
    have can := (UndoLog.canWrite_of_writable member).2
    rw [written, List.mem_reverse] at member
    have inside : b ∈ first.history.batches :=
      List.mem_append_left _ (List.mem_filter.1 (List.mem_of_mem_take member)).1
    exact UndoLog.isDated_of_canWrite (reached.kinds b inside) can (dates b member)
  rw [read, UndoLog.reread_of_dated dated, written, List.map_reverse]

/-! ## A full history -/

/-- A session in which the undo log holds two batches. -/
def fullSitting (limit : Nat) : Sitting Unit :=
  let w := World.sample [("a", "first"), ("undo.log",
    "<RENAME [1]>\n\"/w/x\" -> \"/w/y\"\n<END OF BATCH>\n\n<RENAME [1]>\n\"/w/y\" -> \"/w/z\"\n<END OF BATCH>\n")]
  ⟨((start [.ofString "/w/a"] (.ofString "/w/undo.log") limit).run w).1, w, (), {}⟩

theorem reached_fullSitting (limit : Nat) : (fullSitting limit).session.Reached := by
  rw [fullSitting]
  dsimp only
  exact .start ..

/-- Two edits are made where there is room for one, and one of them is undone. The older batch
is gone then. -/
theorem files_after_save_crowded :
    let rename : Path → Operation := fun target => .edit (.setDestination (.ofString "/w/a") target)
    let s₁ := (rename (.ofString "/w/b")).run .plain (fullSitting 3)
    let s₂ := (rename (.ofString "/w/c")).run .plain s₁
    let s₃ := Operation.undo.run .plain s₂
    let saved := s₃.session.save.run.run s₃.world
    saved.1 = .ok () ∧ ((UndoLog.load (fullSitting 3).session.log).run saved.2).1 =
      [{ kind := .rename, commands := [.rename (.ofString "/w/y") (.ofString "/w/z")] }] := by
  intro rename s₁ s₂ s₃ saved
  have stored : saved = (.ok (), saved.2) := Prod.ext (by decide +kernel) rfl
  have one : Drafted (fullSitting 3).session _ s₁.session :=
    .operation (s := fullSitting 3) (o := rename (.ofString "/w/b")) .start .plain trivial
  have two : Drafted (fullSitting 3).session _ s₂.session :=
    .operation (s := s₁) (o := rename (.ofString "/w/c")) one .plain trivial
  have undone : Drafted (fullSitting 3).session _ s₃.session :=
    .operation (s := s₂) (o := .undo) two .plain (by decide +kernel)
  let newer : List Batch :=
    [{ kind := .rename, commands := [.rename (.ofString "/w/y") (.ofString "/w/z")] }]
  have places : saved.2.Legible (fullSitting 3).session.log ∧
      saved.2.numberOf? (fullSitting 3).session.log ≠
        saved.2.numberOf? (redoPath (fullSitting 3).session.log) := by
    decide +kernel
  obtain ⟨-, same⟩ := undone.files_after_save (reached_fullSitting 3) stored places.1 places.2
  have files : ((fullSitting 3).session.history.done.filter Batch.isRecorded).take
      (max (fullSitting 3).session.history.limit 1 - max (max (max
        (fullSitting 3).session.history.edits s₁.session.history.edits) s₂.session.history.edits)
        s₃.session.history.edits) = newer := by
    decide +kernel
  have dates : ∀ b ∈ newer, b.HasDates :=
    List.forall_mem_singleton.2 ⟨List.forall_mem_singleton.2 trivial, nofun⟩
  rw [files] at same
  exact ⟨congrArg Prod.fst stored, same dates⟩

/-- The undo log of a session as it is loaded after the session was kept in a world. -/
def savedFiles (session : Session) (w : World) : Option (List Batch) :=
  match session.save.run.run w with
  | (.ok (), w') => some ((UndoLog.load session.log).run w').1
  | (.error _, _) => none

/-- The recorded batches of a session as they are read from a log. -/
def loggedFiles (session : Session) : List Batch :=
  ((session.history.done.filter Batch.isRecorded).map UndoLog.untagged).reverse

/-- An edit can cost a batch that was kept before, even if it is undone. And where there is room for
the edits, nothing is loaded from a log that cannot be read, and the wrong batches are if the redo log
leads to the same file. -/
theorem not_files_after_save :
    (let first := fullSitting 2
    let s₁ := Edit.run (.setDestination (.ofString "/w/a") (.ofString "/w/b")) .plain first
    let s₂ := Operation.undo.run .plain s₁
    ((UndoLog.load first.session.log).run first.world).1 = loggedFiles first.session ∧
      s₂.session.history.edits = 0 ∧ (savedFiles s₂.session s₂.world).isSome = true ∧
      savedFiles s₂.session s₂.world ≠ some (loggedFiles first.session)) ∧
    (let first := fullSitting 3
    let s₁ := Edit.run (.setDestination (.ofString "/w/a") (.ofString "/w/b")) .plain first
    savedFiles s₁.session s₁.world = some (loggedFiles first.session) ∧
      (let denied := s₁.world.withUnreadable "undo.log"
      (savedFiles s₁.session denied).isSome = true ∧
        savedFiles s₁.session denied ≠ some (loggedFiles first.session))) ∧
    (let full := fullSitting 3
    let moved := { full.world with disk := full.world.disk.withFile "z" "third" }
    let first := Operation.undo.run .plain { full with world := moved }
    savedFiles first.session first.world = some (loggedFiles first.session) ∧
      (let linked := first.world.withLink "undo.log.redo" "undo.log"
      (savedFiles first.session linked).isSome = true ∧
        savedFiles first.session linked ≠ some (loggedFiles first.session))) := by
  refine ⟨?_, ?_, ?_⟩
  all_goals decide +kernel

end Session

end Renumber
