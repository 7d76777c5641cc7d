import Renumber.Proofs.UndoLog.Loaded
import Renumber.Proofs.World.Tend
import Renumber.UndoLog.Store

/-!
# Undo logs that are kept

Saving a stack replaces what the log holds and nothing else. Loading changes nothing, and
whatever is loaded can be saved again.
-/

namespace Renumber.UndoLog

open Disk (addressOf wayOf)
open World (Tends)

variable {log : Path} {stack : List Batch} {w w' : World} {loc : Location}

/-! ## Saving -/

theorem run_save (log : Path) (stack : List Batch) (w : World) :
    (save log stack).run.run w = match (World.makeParent log).run.run w with
      | (.error fault, u) => (.error fault, u)
      | (.ok _, u) =>
        match (World.act (.write log (Text.encode (write stack).text))).run.run u with
        | (.error fault, v) => (.error fault, v)
        | (.ok _, v) => ((match (write stack).fault with
          | some fault => .error fault
          | none => .ok ()), v) := by
  rw [save, Outcome.run_bind]
  rcases (World.makeParent log).run.run w with ⟨_ | _, u⟩
  · rfl
  · simp only [Outcome.run_bind, World.writeFile]
    rcases (World.act (.write log (Text.encode (write stack).text))).run.run u with ⟨_ | _, v⟩
    · rfl
    · cases (write stack).fault <;> rfl

/-- A log that was saved has its folders, was written, and was written to its end. -/
theorem save_eq_ok (saved : (save log stack).run.run w = (.ok (), w')) :
    ∃ u, (World.makeParent log).run.run w = (.ok (), u) ∧
      (World.act (.write log (Text.encode (write stack).text))).run.run u = (.ok (), w') ∧
      (write stack).fault = none := by
  rw [save] at saved
  obtain ⟨_, u, above, saved⟩ := Outcome.bind_eq_ok saved
  obtain ⟨_, v, written, ended⟩ := Outcome.bind_eq_ok saved
  cases whole : (write stack).fault with
  | some fault =>
      rw [whole] at ended
      cases ended
  | none =>
      rw [whole] at ended
      cases ended
      exact ⟨u, above, written, rfl⟩

/-- A log that was saved is written to its end and stands at a slot. Folders above it may
have been made first. -/
theorem save_ok (plain : w.disk.Plain) (working : w.disk.shape? w.cwd = some .folder)
    (lone : w.disk.Lone (addressOf w.cwd log))
    (saved : (save log stack).run.run w = (.ok (), w')) :
    ∃ u, w.Grows u ∧ Tends ∅ {loc | loc ∈ wayOf w.cwd log} w u ∧
      Tends {addressOf w.cwd log} ∅ u w' ∧ w'.Slot log (addressOf w.cwd log) ∧
      w'.Holds (addressOf w.cwd log) (Text.encode (write stack).text) ∧
      (write stack).fault = none := by
  have above := World.makeParent_tends plain log
  have grows := (World.makeParent_growsToward log w).grows
  obtain ⟨u, made, written, whole⟩ := save_eq_ok saved
  rw [made] at above grows
  have working' : u.disk.shape? u.cwd = some .folder := by
    rw [above.cwd]
    exact above.disk.keeps.folder _ working
  have lone' : u.disk.Lone (addressOf u.cwd log) := by
    rw [above.cwd]
    exact above.disk.lone _ lone
  obtain ⟨loc, slot, tends, holds⟩ := World.act_write_ok above.disk.plain working' lone' written
  have address : loc = addressOf w.cwd log := by
    rw [slot.address above.disk.plain, above.cwd]
  subst address
  exact ⟨u, grows, above, tends, slot.tends tends (Set.notMem_empty _), holds, whole⟩

/-- At a slot a stack that can be written is saved, and no folder is made. -/
theorem save_of_slot (plain : w.disk.Plain) (working : w.disk.shape? w.cwd = some .folder)
    (slot : w.Slot log loc) (whole : (write stack).fault = none) :
    ∃ w', (save log stack).run.run w = (.ok (), w') ∧ Tends {loc} ∅ w w' ∧
      w'.Holds loc (Text.encode (write stack).text) := by
  obtain ⟨clock, above⟩ := World.run_makeParent_of_place slot.place
  have slot' : ({ w with clock } : World).Slot log loc := slot
  have lone : w.disk.Lone (addressOf w.cwd log) := slot.address plain ▸ slot.lone
  obtain ⟨v, acted⟩ := World.act_write_of_slot slot' (Text.encode (write stack).text)
  obtain ⟨loc', slot'', tends, holds⟩ :=
    World.act_write_ok (w := { w with clock }) plain working lone acted
  have same : loc' = loc := Option.some.inj (slot''.place.symm.trans slot'.place)
  subst same
  refine ⟨v, ?_, ⟨tends.cwd, tends.interrupt, tends.disk⟩, holds⟩
  rw [run_save, above]
  simp only [acted, whole]

/-! ## Loading -/

theorem load_of_missing (missing : w.reaches log = false) : (load log).run w = ([], w) := by
  rw [load]
  simp only [StateT.run_bind, StateT.run_get, pure_bind, missing, Bool.false_eq_true, ↓reduceIte]
  rfl

theorem load_of_readFile (reaches : w.reaches log = true) :
    ∃ notices, (load log).run w = (match w.disk.readFile w.cwd log with
      | .ok bytes => (readAll bytes).1
      | .error _ => [], { w with notices }) := by
  have read : (World.readFile log).run.run w = (w.disk.readFile w.cwd log, w) := World.run_ask ..
  have now : (get : StateM World World).run w = (w, w) := rfl
  rw [load, Outcome.run_bindState, now]
  simp only [reaches, ↓reduceIte]
  rw [Outcome.run_bindState, read]
  cases w.disk.readFile w.cwd log with
  | ok bytes =>
      simp only
      cases (readAll bytes).2 with
      | true => exact ⟨_, rfl⟩
      | false => exact ⟨w.notices, rfl⟩
  | error fault => cases fault <;> exact ⟨_, rfl⟩

/-- Loading tells the user something at most, and what is loaded can be saved again. -/
theorem load_loaded (log : Path) (w : World) :
    ∃ stack notices, (load log).run w = (stack, { w with notices }) ∧ ∀ b ∈ stack, Loaded b := by
  cases reaches : w.reaches log with
  | false =>
      exact ⟨[], w.notices, load_of_missing reaches, fun b member => (List.not_mem_nil member).elim⟩
  | true =>
      obtain ⟨notices, same⟩ := load_of_readFile reaches
      refine ⟨_, notices, same, fun b member => ?_⟩
      split at member
      · exact loaded_of_readAll member
      · exact (List.not_mem_nil member).elim

/-- What a log holds is loaded. -/
theorem load_of_holds {content : List UInt8} (place : w.place? log = some loc)
    (holds : w.Holds loc content) (readable : w.disk.Allows Disk.ownerRead loc) :
    ∃ notices, (load log).run w = ((readAll content).1, { w with notices }) := by
  have read : w.disk.readFile w.cwd log = .ok content :=
    (Prod.mk.inj ((World.run_ask ..).symm.trans (World.readFile_of_holds place holds readable))).1
  have reaches : w.reaches log = true := by
    obtain ⟨id, _, there, -⟩ := holds
    rw [World.reaches, Disk.reaches, Disk.findEntry_of_fileAt? place there true]
    rfl
  obtain ⟨notices, same⟩ := load_of_readFile reaches
  rw [read] at same
  exact ⟨notices, same⟩

end Renumber.UndoLog
