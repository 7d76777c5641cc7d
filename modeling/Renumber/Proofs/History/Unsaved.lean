import Renumber.Proofs.Path.Join
import Renumber.Proofs.UndoLog.Unfinished
import Renumber.Proofs.World.Found

/-!
# Histories that could not be kept

Keeping a history writes over the undo log before it is known whether all of it can be written.
When that fails, the undo log is what it was, or it holds the done batches up to the first that
cannot be written; and the redo log is touched only when the undo log has been written to its
end. So a failure can cost what the logs held, but neither log is ever read with a part of a
batch, or with anything that stands in neither the old log nor the history.
-/

namespace Renumber

open Outcome
open UndoLog (redoPath)

variable {w w' u v : World} {log : Path} {stack : List Batch}

namespace World

/-- The world after the folders above a log were made, as far as that went. -/
def readied (w : World) (log : Path) : World :=
  ((makeParent log).run.run w).2

/-- Neither log is found only because the folders above the undo log are made. One could be, if
its path leads through a missing folder and up again. -/
def NoneHidden (w : World) (log : Path) : Prop :=
  ∀ p ∈ [log, redoPath log], (w.readied log).reaches p = true → w.reaches p = true

theorem readied_grows (w : World) (log : Path) : w.Grows (w.readied log) :=
  (makeParent_growsToward log w).grows

theorem readied_of_hasFolder (above : w.HasFolder log) :
    (w.readied log).disk = w.disk ∧ (w.readied log).cwd = w.cwd := by
  obtain ⟨clock, made⟩ := run_makeParent_of_hasFolder above
  rw [readied, made]
  exact ⟨rfl, rfl⟩

/-- Nothing is hidden where the folder of the log is there. -/
theorem noneHidden_of_hasFolder (above : w.HasFolder log) : w.NoneHidden log := by
  obtain ⟨disk, cwd⟩ := readied_of_hasFolder above
  intro p _ found
  rwa [reaches, disk, cwd] at found

theorem NoneHidden.bytesAt (none_hidden : w.NoneHidden log) {p : Path} (member : p ∈ [log, redoPath log]) :
    (w.readied log).bytesAt p = w.bytesAt p := by
  have grows := w.readied_grows log
  exact bytesAt_within grows.cwd grows.disk.within (none_hidden p member) fun id _ => grows.disk.file id

theorem HasFolder.within {p : Path} (above : w.HasFolder p) (within : w.disk.Within w'.disk)
    (cwd : w'.cwd = w.cwd) : w'.HasFolder p := by
  intro q parent
  refine (above q parent).imp_right (Or.imp_right fun there => ?_)
  rw [isFolder, cwd]
  exact Disk.isFolder_keeps within.keeps there

end World

namespace UndoLog

/-- What is loaded is what is read of the bytes that a log has. -/
theorem load_eq (log : Path) (w : World) :
    ∃ notices, (load log).run w = (read (w.bytesAt log), { w with notices }) := by
  cases reaches : w.reaches log with
  | false =>
      obtain ⟨fault, failed⟩ := Disk.readFile_of_missing reaches
      refine ⟨w.notices, ?_⟩
      rw [load_of_missing reaches, World.bytesAt, failed]
      rfl
  | true =>
      obtain ⟨notices, same⟩ := load_of_readFile reaches
      refine ⟨notices, ?_⟩
      rw [same, World.bytesAt]
      cases w.disk.readFile w.cwd log <;> rfl

/-- Either a log is not opened at all, or all of a stack is written that can be. -/
theorem save_cases (log : Path) (stack : List Batch) (w : World) :
    (∃ fault w', (save log stack).run.run w = (.error fault, w') ∧
      w'.disk = (w.readied log).disk ∧ w'.cwd = (w.readied log).cwd) ∨
    ∃ w', (save log stack).run.run w = ((write stack).fault.elim (.ok ()) .error, w') ∧
      (w.readied log).HasFolder log ∧
      World.Writes log (Text.encode (write stack).text) (w.readied log) w' := by
  rw [run_save, World.readied]
  cases made : (World.makeParent log).run.run w with
  | mk result u =>
      cases result with
      | error fault => exact .inl ⟨fault, u, rfl, rfl, rfl⟩
      | ok _ =>
          dsimp only
          obtain ⟨fault, v, failed, disk, cwd⟩ | ⟨v, written, writes⟩ :=
            World.act_write log (Text.encode (write stack).text) u
          · rw [failed]
            exact .inl ⟨fault, v, rfl, disk, cwd⟩
          · rw [written]
            refine .inr ⟨v, ?_, World.hasFolder_of_makeParent made, writes⟩
            cases (write stack).fault <;> rfl

/-- Where the undo log was opened, the redo log has its folder as well. -/
theorem hasFolder_redoPath {text : List UInt8} (tree : w.disk.IsTree)
    (working : w.disk.shape? w.cwd = some .folder) (above : (w.readied log).HasFolder log)
    (writes : World.Writes log text (w.readied log) w') : w'.HasFolder (redoPath log) := by
  have grows := w.readied_grows log
  have working' : (w.readied log).disk.shape? (w.readied log).cwd = some .folder := by
    rw [grows.cwd]
    exact grows.disk.keeps.folder _ working
  obtain ⟨d, id, opened⟩ := writes.opened
  obtain ⟨front, name, all, isName⟩ := Disk.name_of_openFile (grows.disk.tree tree) working' opened
  have parent : (redoPath log).parent? = log.parent? :=
    Path.parent?_append all isName.1 (by decide)
  have beside : (w.readied log).HasFolder (redoPath log) := by
    rw [World.HasFolder, parent]
    exact above
  exact beside.within writes.within writes.cwd

end UndoLog

namespace History

variable {h : History} {fault : DiskFault}

/-- What the two logs hold when a history could not be kept. -/
structure Spoils (h : History) (log : Path) (fault : DiskFault) (w w' : World) : Prop where
  done : w'.bytesAt log = w.bytesAt log ∨
    w'.bytesAt log = Text.encode (UndoLog.write h.done.reverse).text
  undone : w'.bytesAt (redoPath log) = w.bytesAt (redoPath log) ∨
    (UndoLog.write h.done.reverse).fault = none ∧ (UndoLog.write h.undone.reverse).fault = some fault ∧
      w'.bytesAt (redoPath log) = Text.encode (UndoLog.write h.undone.reverse).text

/-- When the second part of keeping a history fails, the disk is what it was before that, or what
was undone is written up to the command that cannot be. -/
theorem beside_cases (beside : v.HasFolder (redoPath log))
    (failed : (if h.undone.any Batch.isRecorded then
        (UndoLog.save (redoPath log) h.undone.reverse).run.run v
      else if v.reaches (redoPath log) then (World.removeFile (redoPath log)).run.run v
      else (.ok (), v)) = (.error fault, w')) :
    (w'.disk = v.disk ∧ w'.cwd = v.cwd) ∨
    (UndoLog.write h.undone.reverse).fault = some fault ∧ ∃ u, u.disk = v.disk ∧ u.cwd = v.cwd ∧
      World.Writes (redoPath log) (Text.encode (UndoLog.write h.undone.reverse).text) u w' := by
  cases recorded : h.undone.any Batch.isRecorded with
  | true =>
      rw [recorded, if_pos rfl] at failed
      obtain ⟨disk_v, cwd_v⟩ := World.readied_of_hasFolder beside
      obtain ⟨fault', x, second, disk, cwd⟩ | ⟨x, second, -, writes⟩ :=
        UndoLog.save_cases (redoPath log) h.undone.reverse v
      · rw [second] at failed
        cases failed
        exact .inl ⟨disk.trans disk_v, cwd.trans cwd_v⟩
      · rw [second] at failed
        cases broken : (UndoLog.write h.undone.reverse).fault with
        | none =>
            rw [broken] at failed
            cases failed
        | some fault' =>
            rw [broken] at failed
            cases failed
            exact .inr ⟨rfl, _, disk_v, cwd_v, writes⟩
  | false =>
      rw [recorded, if_neg Bool.false_ne_true] at failed
      split at failed
      · rw [World.removeFile, World.run_act] at failed
        cases removed : (Deed.remove (redoPath log)).doOn v.disk v.clock v.cwd with
        | ok disk =>
            rw [removed] at failed
            cases failed
        | error fault' =>
            rw [removed] at failed
            cases failed
            exact .inl ⟨rfl, rfl⟩
      · cases failed

theorem spoils_of_save (tree : w.disk.IsTree) (working : w.disk.shape? w.cwd = some .folder)
    (none_hidden : w.NoneHidden log)
    (apart : ∀ id, w'.numberOf? log = some id → w'.numberOf? (redoPath log) ≠ some id)
    (failed : (h.save log).run.run w = (.error fault, w')) : h.Spoils log fault w w' := by
  have done_before := none_hidden.bytesAt (p := log) (by simp)
  have undone_before := none_hidden.bytesAt (p := redoPath log) (by simp)
  rw [run_save] at failed
  obtain ⟨fault', v, first, disk, cwd⟩ | ⟨v, first, above, writes⟩ :=
    UndoLog.save_cases log h.done.reverse w
  · rw [first] at failed
    cases failed
    have same := World.bytesAt_of_disk disk cwd
    exact ⟨.inl ((same _).trans done_before), .inl ((same _).trans undone_before)⟩
  rw [first] at failed
  have done_written : v.bytesAt log = w.bytesAt log ∨
      v.bytesAt log = Text.encode (UndoLog.write h.done.reverse).text :=
    writes.bytes.imp_left fun same => same.trans done_before
  obtain ⟨id, leads, -⟩ := writes.file
  -- the redo log is as before so long as the two logs are two files in the end
  have undone_kept : v.disk.Within w'.disk → w'.cwd = v.cwd →
      v.bytesAt (redoPath log) = w.bytesAt (redoPath log) := by
    intro within cwd
    have others : v.numberOf? log ≠ v.numberOf? (redoPath log) := by
      intro same
      rw [leads] at same
      exact apart id (World.numberOf?_within within cwd leads)
        (World.numberOf?_within within cwd same.symm)
    exact (writes.bytesAt_of_ne others).trans undone_before
  cases whole : (UndoLog.write h.done.reverse).fault with
  | some fault' =>
      rw [whole] at failed
      cases failed
      exact ⟨done_written, .inl (undone_kept (fun _ _ there => there) rfl)⟩
  | none =>
      rw [whole] at failed
      have beside := UndoLog.hasFolder_redoPath tree working above writes
      obtain ⟨disk, cwd⟩ | ⟨broken, u, disk_u, cwd_u, writes'⟩ := beside_cases beside failed
      · have same := World.bytesAt_of_disk disk cwd
        have within : v.disk.Within w'.disk := disk ▸ fun _ _ there => there
        exact ⟨done_written.imp (same _).trans (same _).trans,
          .inl ((same _).trans (undone_kept within cwd))⟩
      · have within : v.disk.Within w'.disk := disk_u ▸ writes'.within
        have cwd : w'.cwd = v.cwd := writes'.cwd.trans cwd_u
        have same := World.bytesAt_of_disk disk_u cwd_u
        have leads' := World.numberOf?_within within cwd leads
        have others : w'.numberOf? (redoPath log) ≠ w'.numberOf? log := by
          rw [leads']
          exact apart id leads'
        have kept := (writes'.bytesAt_of_ne others).trans (same log)
        refine ⟨done_written.imp kept.trans kept.trans, ?_⟩
        refine writes'.bytes.imp (fun as_before => ?_) fun stored => ⟨whole, broken, stored⟩
        exact (as_before.trans (same _)).trans (undone_kept within cwd)

/-- A history is loaded from the bytes of its two logs. -/
theorem load_eq (log : Path) (limit : Nat) (w : World) : ((load log limit).run w).1 =
    prune ⟨(UndoLog.read (w.bytesAt log)).reverse, (UndoLog.read (w.bytesAt (redoPath log))).reverse,
      limit⟩ := by
  obtain ⟨notices, first⟩ := UndoLog.load_eq log w
  obtain ⟨notices', second⟩ := UndoLog.load_eq (redoPath log) { w with notices }
  rw [run_load, first, second]
  rfl

/-- A history whose newest batch moves a file to a path that is no text. -/
def unspelled : History where
  done := [
    { kind := .rename, commands := [.rename (.ofString "/w/b") ⟨[0x2F, 0x77, 0x2F, 0xFF]⟩] },
    { kind := .rename, tag := "Before", commands := [.rename (.ofString "/w/a") (.ofString "/w/b")] }]
  limit := defaultLimit

/-- The logs of an earlier session, with a batch in each. -/
def leftLogs : World :=
  World.sample [
    ("undo.log", "<RENAME [1]>\n\"/w/x\" -> \"/w/y\"\n<END OF BATCH>\n"),
    ("undo.log.redo", "<RENAME [1]>\n\"/w/y\" -> \"/w/z\"\n<END OF BATCH>\n")]

end History

end Renumber
