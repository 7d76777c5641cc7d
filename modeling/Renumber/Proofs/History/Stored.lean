import Renumber.History.Store
import Renumber.Proofs.History.Steps
import Renumber.Proofs.UndoLog.Stored

/-!
# Histories that are kept

A history is kept in two files. Where both have slots and all batches can be written,
keeping it succeeds and changes only these files; and the newest batch of each stack is
the newest one that is loaded next time.

A history begins empty or is loaded, and changes when it is called for. Calls keep only parts
of batches for which something ran, and forget what is beyond the limit. So no batch of a
history is ever empty, and there are never more done batches than may be kept.
-/

namespace Renumber

open Text (ended)
open UndoLog (Loaded ReadsBack asRead batchLines redoPath)

namespace UndoLog

/-- The bytes of a log whose last batch is known. -/
def EndsWith (content : List UInt8) (b : Batch) : Prop :=
  ∃ older, content = Text.encode (ended '\n' (older ++ batchLines b))

/-- The newest batch is written last. -/
theorem endsWith_write {older : List Batch} {b : Batch} (written : isWritten b = true)
    (whole : (write (older ++ [b])).fault = none) :
    EndsWith (Text.encode (write (older ++ [b])).text) b := by
  obtain ⟨before, lines⟩ := stackLines_concat (older.filter isWritten) b
  refine ⟨before, ?_⟩
  rw [(write_of_fault whole).1, List.filter_append, List.filter_cons_of_pos written,
    List.filter_nil, lines]

/-- The log of a stack ends with its newest batch. -/
theorem endsWith_newest {rest : List Batch} {b : Batch} (written : isWritten b = true)
    (can : ∀ b' ∈ b :: rest, CanWrite b'.commands) :
    EndsWith (Text.encode (write (b :: rest).reverse).text) b := by
  have whole := fault_write fun b' member => can b' (List.mem_reverse.1 member)
  rw [List.reverse_cons] at whole ⊢
  exact endsWith_write written whole

/-- The newest batch is read last. -/
theorem readAll_of_endsWith {content : List UInt8} {b : Batch} (back : ReadsBack b)
    (ends : EndsWith content b) : ∃ stack, (readAll content).1 = stack ++ [asRead b] := by
  obtain ⟨older, rfl⟩ := ends
  obtain ⟨stack, read⟩ := readAll_concat back older
  exact ⟨stack, by rw [read]⟩

/-- The name of the redo log is not too long. -/
structure HasRoom (log : Path) : Prop where
  text : Disk.checkText (redoPath log) = .ok ()
  names : ∀ name ∈ (redoPath log).reals, name.length ≤ Disk.maxName

/-- The redo log has its place beside the undo log. -/
theorem place_redoPath {log : Path} {w : World} {loc : Location} (room : HasRoom log)
    (place : w.place? log = some loc) :
    ∃ beside, w.place? (redoPath log) = some beside ∧ beside ≠ loc := by
  obtain ⟨folder, name, last, -, rfl⟩ := Disk.place?_eq_some.1 place
  have last' := Disk.findLast_append last room.text (by decide) (by decide)
  obtain ⟨-, front, blank, stats, all, isName, blanks, -⟩ := Disk.findLast_eq_ok.1 last'
  have short : (name ++ Text.bytesOf ".redo").length ≤ Disk.maxName := by
    refine room.names _ ?_
    have reals := Disk.reals_of_segments all isName blanks
    rw [redoPath, reals]
    simp
  refine ⟨_, Disk.place?_eq_some.2 ⟨_, _, last', short, rfl⟩, fun same => ?_⟩
  have longer := congrArg (List.length ∘ List.flatten) same
  have suffix : (Text.bytesOf ".redo").length = 5 := by decide
  simp only [Function.comp_apply, List.flatten_append, List.flatten_cons, List.flatten_nil,
    List.append_nil, List.length_append, suffix] at longer
  omega

end UndoLog

namespace History

open Disk (addressOf wayOf)
open World (Tends)

variable {h : History} {log : Path} {limit : Nat} {w w' : World} {loc beside : Location} {b : Batch}
  {content : List UInt8}

/-! ## Loading -/

theorem run_load (log : Path) (limit : Nat) (w : World) :
    (load log limit).run w =
      (prune ⟨((UndoLog.load log).run w).1.reverse,
          ((UndoLog.load (redoPath log)).run ((UndoLog.load log).run w).2).1.reverse, limit⟩,
        ((UndoLog.load (redoPath log)).run ((UndoLog.load log).run w).2).2) := rfl

/-- Loading tells the user something at most. -/
theorem load_world (log : Path) (limit : Nat) (w : World) :
    ∃ notices, ((load log limit).run w).2 = { w with notices } := by
  obtain ⟨stack, notices, first, -⟩ := UndoLog.load_loaded log w
  obtain ⟨stack', notices', second, -⟩ := UndoLog.load_loaded (redoPath log) { w with notices }
  refine ⟨notices', ?_⟩
  rw [run_load, first, second]

/-- Whatever is loaded can be kept again. -/
theorem load_loaded (log : Path) (limit : Nat) (w : World) :
    (∀ b ∈ ((load log limit).run w).1.done, Loaded b) ∧
      ∀ b ∈ ((load log limit).run w).1.undone, Loaded b := by
  obtain ⟨stack, notices, first, loaded⟩ := UndoLog.load_loaded log w
  obtain ⟨stack', notices', second, loaded'⟩ := UndoLog.load_loaded (redoPath log) { w with notices }
  rw [run_load, first, second]
  constructor <;> intro b member
  · exact loaded b (List.mem_reverse.1 (List.mem_of_mem_take member))
  · exact loaded' b (List.mem_reverse.1 member)

/-- The newest done batch is loaded. -/
theorem load_done (limit : Nat) (place : w.place? log = some loc) (holds : w.Holds loc content)
    (readable : w.disk.Allows Disk.ownerRead loc) (ends : UndoLog.EndsWith content b)
    (back : ReadsBack b) : ∃ rest, ((load log limit).run w).1.done = asRead b :: rest := by
  obtain ⟨notices, first⟩ := UndoLog.load_of_holds place holds readable
  obtain ⟨stack, read⟩ := UndoLog.readAll_of_endsWith back ends
  rw [run_load, first, read, prune]
  simp only [List.reverse_append, List.reverse_cons, List.reverse_nil, List.nil_append,
    List.cons_append]
  exact take_cons_of_limit limit _ _

/-- The newest undone batch is loaded. -/
theorem load_undone (log : Path) (limit : Nat) (place : w.place? (redoPath log) = some loc)
    (holds : w.Holds loc content) (readable : w.disk.Allows Disk.ownerRead loc)
    (ends : UndoLog.EndsWith content b) (back : ReadsBack b) :
    ∃ rest, ((load log limit).run w).1.undone = asRead b :: rest := by
  obtain ⟨stack, notices, first, -⟩ := UndoLog.load_loaded log w
  obtain ⟨notices', second⟩ :=
    UndoLog.load_of_holds (w := { w with notices }) place holds readable
  obtain ⟨stack', read⟩ := UndoLog.readAll_of_endsWith back ends
  rw [run_load, first, second, read, prune]
  simp only [List.reverse_append, List.reverse_cons, List.reverse_nil, List.nil_append,
    List.cons_append]
  exact ⟨_, rfl⟩

/-! ## Keeping -/

theorem run_save (h : History) (log : Path) (w : World) :
    (h.save log).run.run w = match (UndoLog.save log h.done.reverse).run.run w with
      | (.error fault, u) => (.error fault, u)
      | (.ok _, u) =>
        if h.undone.any Batch.isRecorded then
          (UndoLog.save (redoPath log) h.undone.reverse).run.run u
        else if u.reaches (redoPath log) then (World.removeFile (redoPath log)).run.run u
        else (.ok (), u) := by
  rw [save, Outcome.run_bind]
  rcases (UndoLog.save log h.done.reverse).run.run w with ⟨_ | _, u⟩
  · rfl
  · simp only [Outcome.run_ite, Outcome.run_bind, Outcome.run_get]
    rfl

/-- A history that was kept has its undo log, and beside it a redo log with what can be redone;
where nothing can, none is there. -/
theorem save_eq_ok (saved : (h.save log).run.run w = (.ok (), w')) :
    ∃ v, (UndoLog.save log h.done.reverse).run.run w = (.ok (), v) ∧
      (h.undone.any Batch.isRecorded = true ∧
          (UndoLog.save (redoPath log) h.undone.reverse).run.run v = (.ok (), w') ∨
        h.undone.any Batch.isRecorded = false ∧
          (v.reaches (redoPath log) = true ∧
              (World.removeFile (redoPath log)).run.run v = (.ok (), w') ∨
            v.reaches (redoPath log) = false ∧ w' = v)) := by
  rw [run_save] at saved
  rcases first : (UndoLog.save log h.done.reverse).run.run w with ⟨_ | ⟨⟩, v⟩
  · rw [first] at saved
    cases saved
  rw [first] at saved
  refine ⟨v, rfl, ?_⟩
  dsimp only at saved
  cases recorded : h.undone.any Batch.isRecorded with
  | true => exact .inl ⟨rfl, by rwa [if_pos recorded] at saved⟩
  | false =>
      rw [recorded, if_neg Bool.false_ne_true] at saved
      cases there : v.reaches (redoPath log) with
      | true => exact .inr ⟨rfl, .inl ⟨rfl, by rwa [if_pos there] at saved⟩⟩
      | false =>
          rw [there, if_neg Bool.false_ne_true] at saved
          exact .inr ⟨rfl, .inr ⟨rfl, (Prod.mk.inj saved).2.symm⟩⟩

/-- Nothing stands at a place that does not reach anything. -/
theorem vacant_of_place (plain : w.disk.Plain) {p : Path} (place : w.place? p = some loc)
    (missing : w.reaches p = false) : w.disk.get? loc = none := by
  obtain ⟨folder, name, last, short, rfl⟩ := Disk.place?_eq_some.1 place
  rw [World.reaches, Disk.reaches, Disk.findEntry] at missing
  cases there : w.disk.get? (folder ++ [name]) with
  | none => rfl
  | some e =>
      cases e with
      | folder stats =>
          rw [Disk.find_folder last short there] at missing
          cases missing
      | file id =>
          rw [Disk.find_of_place_file place there] at missing
          cases missing
      | link target => exact absurd there (plain.unlinked _ _)

/-- A history without undone batches that was kept leaves nothing to redo. Folders above
the log may have been made first. -/
theorem save_ok (plain : w.disk.Plain) (working : w.disk.shape? w.cwd = some .folder)
    (lone : w.disk.Lone (addressOf w.cwd log)) (room : UndoLog.HasRoom log) (none_undone : h.undone = [])
    (saved : (h.save log).run.run w = (.ok (), w')) :
    ∃ u, w.Grows u ∧ Tends ∅ {loc | loc ∈ wayOf w.cwd log} w u ∧
      Tends {addressOf w.cwd log, addressOf w.cwd (redoPath log)} ∅ u w' ∧
      w'.Slot log (addressOf w.cwd log) ∧
      w'.Holds (addressOf w.cwd log) (Text.encode (UndoLog.write h.done.reverse).text) ∧
      (UndoLog.write h.done.reverse).fault = none ∧
      w'.place? (redoPath log) = some (addressOf w.cwd (redoPath log)) ∧
      w'.disk.get? (addressOf w.cwd (redoPath log)) = none := by
  obtain ⟨v, first, ⟨recorded, -⟩ | ⟨-, rest⟩⟩ := save_eq_ok saved
  · rw [none_undone] at recorded
    cases recorded
  obtain ⟨u, grows, above, tends, slot, holds, whole⟩ := UndoLog.save_ok plain working lone first
  obtain ⟨beside, place, apart⟩ := UndoLog.place_redoPath room slot.place
  have plain_v : v.disk.Plain := tends.disk.plain
  have cwd : v.cwd = w.cwd := tends.cwd.trans above.cwd
  have address : beside = addressOf w.cwd (redoPath log) := by
    rw [← cwd]
    exact (Disk.addressOf_of_place plain_v.unlinked place).symm
  subst address
  have tends_both : Tends {addressOf w.cwd log, addressOf w.cwd (redoPath log)} ∅ u v :=
    tends.mono (by simp) (by simp)
  obtain ⟨-, removed⟩ | ⟨missing, rfl⟩ := rest
  · obtain ⟨removes, gone⟩ := World.removeFile_ok plain_v place removed
    refine ⟨u, grows, above, tends_both.trans (removes.mono (by simp) (by simp)),
      slot.tends removes (Set.notMem_empty _), holds.tends removes ?_, whole,
      Disk.place?_keeps removes.disk.keeps ?_, gone⟩
    · simpa using apart.symm
    · rw [removes.cwd]
      exact place
  · exact ⟨u, grows, above, tends_both, slot, holds, whole, place,
      vacant_of_place plain_v place missing⟩

/-- Where both files have slots, a history that can be written is kept, and no folder is
made. -/
theorem save_of_slots (plain : w.disk.Plain) (working : w.disk.shape? w.cwd = some .folder)
    (slot : w.Slot log loc) (slot' : w.Slot (redoPath log) beside) (apart : beside ≠ loc)
    (done : ∀ b ∈ h.done, UndoLog.CanWrite b.commands)
    (undone : ∀ b ∈ h.undone, UndoLog.CanWrite b.commands) :
    ∃ w', (h.save log).run.run w = (.ok (), w') ∧ Tends {loc, beside} ∅ w w' ∧
      w'.Holds loc (Text.encode (UndoLog.write h.done.reverse).text) ∧
      (h.undone.any Batch.isRecorded = true →
        w'.Holds beside (Text.encode (UndoLog.write h.undone.reverse).text)) := by
  have whole : ∀ {bs : List Batch}, (∀ b ∈ bs, UndoLog.CanWrite b.commands) →
      (UndoLog.write bs.reverse).fault = none :=
    fun each => UndoLog.fault_write fun b member => each b (List.mem_reverse.1 member)
  obtain ⟨u, first, tends, holds⟩ := UndoLog.save_of_slot plain working slot (whole done)
  have plain_u : u.disk.Plain := tends.disk.plain
  have slot_u : u.Slot (redoPath log) beside := slot'.tends tends (Set.notMem_empty _)
  have tends_both : Tends {loc, beside} ∅ w u := tends.mono (by simp) (by simp)
  rw [run_save, first]
  simp only
  by_cases some_recorded : h.undone.any Batch.isRecorded = true
  · have working_u : u.disk.shape? u.cwd = some .folder := by
      rw [tends.cwd]
      exact tends.disk.keeps.folder _ working
    obtain ⟨v, second, tends', holds'⟩ :=
      UndoLog.save_of_slot plain_u working_u slot_u (whole undone)
    rw [if_pos some_recorded]
    exact ⟨v, second, tends_both.trans (tends'.mono (by simp) (by simp)),
      holds.tends tends' (by simpa using apart.symm), fun _ => holds'⟩
  · rw [if_neg some_recorded]
    have reaches : u.reaches (redoPath log) = (u.disk.fileAt? beside).isSome :=
      Disk.reaches_of_slot slot_u
    cases there : u.disk.fileAt? beside with
    | none =>
        rw [there] at reaches
        rw [reaches]
        exact ⟨u, rfl, tends_both, holds, fun recorded => absurd recorded some_recorded⟩
    | some id =>
        rw [there] at reaches
        rw [reaches]
        obtain ⟨v, removed⟩ := World.removeFile_of_place slot_u.place there
        obtain ⟨removes, -⟩ := World.removeFile_ok plain_u slot_u.place removed
        exact ⟨v, removed, tends_both.trans (removes.mono (by simp) (by simp)),
          holds.tends removes (by simpa using apart.symm),
          fun recorded => absurd recorded some_recorded⟩

/-! ## Reachable histories -/

/-- A history that comes about by calls, on whatever they run, from one that is empty or was
loaded. -/
inductive Reachable : History → Prop
  | empty (limit : Nat) : Reachable { limit }
  | load (log : Path) (limit : Nat) (w : World) : Reachable ((History.load log limit).run w).1
  | call {h : History} {σ ω : Type} (before : Reachable h) (m : Machine ω) (p : Policy σ ω)
      (r : Run.State σ ω) (call : Call) : Reachable (h.call m p r call).1
  | clear {h : History} (before : Reachable h) : Reachable h.clear

/-- No batch is empty, and no more are done than may be kept. -/
structure Tidy (h : History) : Prop where
  done : ∀ b ∈ h.done, b.commands ≠ []
  undone : ∀ b ∈ h.undone, b.commands ≠ []
  size : h.done.length ≤ max h.limit 1

variable {h' : History} {call : Call} {ran : Option Batch}

theorem Tidy.step (tidy : h.Tidy) (step : Step call ran h h') : h'.Tidy := by
  have each := step.forall (fun part _ => part.some_command) (fun _ part => part.some_command)
    (List.forall_mem_append.2 ⟨tidy.done, tidy.undone⟩)
  obtain ⟨done, undone⟩ := List.forall_mem_append.1 each
  exact ⟨done, undone, step.size tidy.size⟩

theorem tidy_load (log : Path) (limit : Nat) (w : World) : ((load log limit).run w).1.Tidy := by
  obtain ⟨done, undone⟩ := load_loaded log limit w
  constructor
  · exact fun b member => (done b member).some_command
  · exact fun b member => (undone b member).some_command
  · exact length_prune _

theorem Reachable.tidy (reachable : h.Reachable) : h.Tidy := by
  induction reachable with
  | empty limit => exact ⟨List.forall_mem_nil _, List.forall_mem_nil _, Nat.zero_le _⟩
  | load log limit w => exact tidy_load log limit w
  | call before m p r call tidy => exact tidy.step (step_call _ m p r call)
  | clear before tidy => exact ⟨List.forall_mem_nil _, List.forall_mem_nil _, Nat.zero_le _⟩

end History

end Renumber
