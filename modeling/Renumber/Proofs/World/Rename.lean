import Renumber.Proofs.Disk.Tree
import Renumber.Proofs.World.Act

/-!
# Renaming one file

A rename looks at its two paths, makes the folders above the target that are missing,
and then moves. Each part either fails, with only folders added, or hands over to the
next one.
-/

namespace Renumber.World

open Outcome
open Renumber.Time (Instant)

/-- One world is another with more folders, and perhaps later. -/
structure Grows (w w' : World) : Prop where
  cwd : w'.cwd = w.cwd
  interrupt : w'.interrupt = w.interrupt
  disk : w.disk.Widens w'.disk

theorem Grows.refl (w : World) : w.Grows w :=
  ⟨rfl, rfl, Disk.Widens.refl _⟩

theorem Grows.trans (u v w : World) (first : u.Grows v) (second : v.Grows w) : u.Grows w :=
  ⟨second.cwd.trans first.cwd, second.interrupt.trans first.interrupt,
    first.disk.trans second.disk⟩

theorem act_makeFolder_grows (p : Path) : Along Grows (act (.makeFolder p)) := by
  intro w
  rw [run_act]
  cases made : (Deed.makeFolder p).doOn w.disk w.clock w.cwd with
  | ok disk => exact ⟨rfl, rfl, Disk.makeFolder_widens made⟩
  | error fault => exact ⟨rfl, rfl, Disk.Widens.refl _⟩

theorem ensureFolder_grows (p : Path) : Along Grows (ensureFolder p) := by
  refine .tryCatch Grows.trans (act_makeFolder_grows p) fun fault => ?_
  refine .bind Grows.trans (.get Grows.refl) fun w => ?_
  exact .ite (fun _ => .pure Grows.refl _) fun _ => .throw Grows.refl _

theorem makeFoldersFrom_grows (p : Path) (above : List Path) :
    Along Grows (makeFoldersFrom p above) := by
  induction above generalizing p with
  | nil => exact .ite (fun _ => .pure Grows.refl _) fun _ => ensureFolder_grows p
  | cons q rest ih =>
      refine .ite (fun _ => .pure Grows.refl _) fun _ => ?_
      refine .tryCatch Grows.trans (ensureFolder_grows p) fun fault => ?_
      refine .ite (fun _ => ?_) fun _ => .throw Grows.refl _
      exact .bind Grows.trans (ih q) fun _ => ensureFolder_grows p

/-- Making folders, even when it fails on the way, does nothing but make folders. -/
theorem makeFolders_grows (p : Path) : Along Grows (makeFolders p) :=
  makeFoldersFrom_grows p _

/-- The part of a rename that makes the folders above the target. -/
def makeWay (target : Path) : Act DiskFault Unit := do
  match target.parent? with
  | some folder =>
    unless folder.isEmpty || (← get).reaches folder do makeFolders folder
  | none => pure ()

theorem run_makeWay (target : Path) (w : World) :
    (makeWay target).run.run w = match target.parent? with
      | some folder =>
        if folder.isEmpty || w.reaches folder then (.ok (), w)
        else (makeFolders folder).run.run w
      | none => (.ok (), w) := by
  rw [makeWay]
  cases target.parent? with
  | none => rfl
  | some folder => simp only [run_bind, run_get, run_ite, run_pure]

theorem makeWay_grows (target : Path) : Along Grows (makeWay target) := by
  intro w
  rw [run_makeWay]
  split
  · split
    · exact Grows.refl w
    · exact makeFolders_grows _ w
  · exact Grows.refl w

/-- The folder that a path names is not there. -/
def LacksFolder (w : World) (p : Path) : Prop :=
  ∃ folder, p.parent? = some folder ∧ folder.isEmpty = false ∧ w.reaches folder = false

/-- Nothing has to be made for a target whose folder is there. -/
theorem run_makeWay_of_folder {w : World} {target : Path} (given : ¬w.LacksFolder target) :
    (makeWay target).run.run w = (.ok (), w) := by
  rw [run_makeWay]
  split
  · next folder parent =>
    split
    · rfl
    · next missing =>
      rw [Bool.or_eq_true, not_or, Bool.not_eq_true, Bool.not_eq_true] at missing
      exact absurd ⟨folder, parent, missing⟩ given
  · rfl

/-- The checks and the parts of a rename, in their order. -/
theorem run_renameFile (source target : Path) (w : World) :
    (renameFile source target).run.run w = match w.disk.findEntry w.cwd false source with
      | .error fault => (.error fault, w)
      | .ok _ =>
        if w.present target then (.error (.occupied target), w)
        else match (makeWay target).run.run w with
          | (.error fault, w') => (.error fault, w')
          | (.ok _, w') => (act (.move source target)).run.run w' := by
  simp only [renameFile, run_bind, run_discard, run_ask, run_get, run_makeWay]
  cases w.disk.findEntry w.cwd false source with
  | error fault => rfl
  | ok found =>
      simp only [run_ite, run_bind, run_throw]
      cases target.parent? with
      | none => rfl
      | some folder =>
          simp only [run_bind, run_get, run_ite]
          by_cases taken : w.present target = true
          · rw [if_pos taken, if_pos taken]
          · rw [if_neg taken, if_neg taken]
            by_cases made : (folder.isEmpty || w.reaches folder) = true
            · rw [if_pos made, if_pos made]
            · rw [if_neg made, if_neg made]
              rcases (makeFolders folder).run.run w with ⟨r | r, w'⟩ <;> rfl

end Renumber.World
