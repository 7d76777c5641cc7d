import Renumber.Proofs.Run.Conduct
import Renumber.Proofs.World.Renamed

/-!
# Following files that move

Where the paths that count lead to files at most, and no two of them to one place, a path
can follow its file: it is exchanged for the target of each move of which it is the source.
After any moves that were made, in their order, the path that comes out is where the file
is, however often its name was given to others meanwhile.
-/

namespace Renumber

open Outcome
open WorkingSet (follow)
open Renumber.Time (Instant)

/-- Stats are no part of what the disk looks like. -/
theorem Disk.shape?_mapStats (d : Disk) (at_loc : Location) (f : Stats → Stats) (loc : Location) :
    (d.mapStats at_loc f).shape? loc = d.shape? loc := by
  rw [mapStats]
  split
  · next stats there =>
    rw [shape?_put]
    split
    · next same =>
      subst same
      exact (shape?_eq_folder.2 ⟨stats, there⟩).symm
    · rfl
  · split
    · rw [shape?, shape?, get?_setFile]
    · rfl
  · rfl

namespace World

variable {w w' : World} {paths : Path → Prop} {moves : List (Path × Path)} {files files' : FileMap}
  {p : Path} {m : Path × Path} {id : Nat}

/-- The file that stands at the place of a path. -/
def fileOf? (w : World) (p : Path) : Option Nat :=
  (w.place? p).bind w.files

/-- A file system that is level at some paths: their folders are there, they lead to files
at most, and two of them lead to one place only if they are one path. -/
structure Level (w : World) (paths : Path → Prop) : Prop where
  tree : w.disk.IsTree
  flat : ∀ p, paths p → w.FlatAt p
  apart : ∀ p q loc, paths p → paths q → w.place? p = some loc → w.place? q = some loc →
    p.same q = true

/-- A file system that is flat at listed paths is level at them. -/
theorem Flat.level {listed : List Path} (flat : w.Flat listed) : w.Level (· ∈ listed) where
  tree := flat.tree
  flat _ member := flat.flatAt member
  apart p q _ member member' place place' :=
    Path.same_iff.2 (flat.apart p member q member' (place.trans place'.symm))

/-! ## Moves that were made -/

/-- One world is another after files moved. Folders and links are as before; what became of
the files otherwise does not count. -/
structure Carries (moves : List (Path × Path)) (w w' : World) : Prop where
  tree : w'.disk.IsTree
  cwd : w'.cwd = w.cwd
  ways : w.disk.SameWays w'.disk
  files : FileMap.run w.place? moves w.files = some w'.files

theorem Carries.place? (carries : Carries moves w w') : w'.place? = w.place? := by
  funext p
  rw [World.place?, World.place?, carries.cwd, carries.ways.place?]

theorem Level.carries (level : w.Level paths) (carries : Carries moves w w') : w'.Level paths where
  tree := carries.tree
  flat p listed := by
    rw [FlatAt, carries.cwd]
    exact Disk.FlatAt.of_sameWays (level.flat p listed) carries.ways
  apart := carries.place? ▸ level.apart

/-- A path follows its file along one move. -/
theorem Level.follow_step (level : w.Level paths) (between : paths m.1 ∧ paths m.2)
    (listed : paths p) (step : FileMap.step w.place? files m = some files')
    (there : (w.place? p).bind files = some id) :
    paths (follow [m] p) ∧ (w.place? (follow [m] p)).bind files' = some id := by
  obtain ⟨a, b, source, target, moved⟩ := FileMap.step_eq_some.1 step
  obtain ⟨loc, place, stands⟩ := Option.bind_eq_some_iff.1 there
  obtain ⟨start, finish⟩ := m
  have one : follow [(start, finish)] p = if p.same start then finish else p := rfl
  rw [one]
  split
  · next same =>
    have at_source : loc = a := Disk.place?_same place source (Path.same_iff.1 same)
    refine ⟨between.2, ?_⟩
    have target : w.place? finish = some b := target
    rw [target, Option.bind_some, FileMap.move_target moved, ← at_source]
    exact stands
  · next other =>
    have not_source : loc ≠ a := by
      rintro rfl
      exact other (level.apart p start loc listed between.1 place source)
    -- The target of a move is free, and here the file stands.
    have not_target : loc ≠ b := by
      rintro rfl
      obtain ⟨_, -, free, -⟩ := FileMap.move_eq_some.1 moved
      rw [free] at stands
      cases stands
    refine ⟨listed, ?_⟩
    rw [place, Option.bind_some, FileMap.move_other moved not_source not_target]
    exact stands

/-- A path follows its file along all moves that were made. -/
theorem Level.follow_run (level : w.Level paths) (between : ∀ m ∈ moves, paths m.1 ∧ paths m.2)
    (listed : paths p) (run : FileMap.run w.place? moves files = some files')
    (there : (w.place? p).bind files = some id) :
    paths (follow moves p) ∧ (w.place? (follow moves p)).bind files' = some id := by
  induction moves generalizing p files with
  | nil =>
      cases run
      exact ⟨listed, there⟩
  | cons m rest ih =>
      obtain ⟨midway, step, later⟩ := Option.bind_eq_some_iff.1 (FileMap.run_cons m rest _ ▸ run)
      obtain ⟨listed, there⟩ := level.follow_step (between m List.mem_cons_self) listed step there
      exact ih (fun m member => between m (List.mem_cons_of_mem _ member)) listed later there

theorem Carries.fileOf?_follow (carries : Carries moves w w') (level : w.Level paths)
    (between : ∀ m ∈ moves, paths m.1 ∧ paths m.2) (listed : paths p) (there : w.fileOf? p = some id) :
    paths (follow moves p) ∧ w'.fileOf? (follow moves p) = some id := by
  rw [fileOf?, carries.place?]
  exact level.follow_run between listed carries.files there

/-! ## When no file moves -/

/-- No file came, went or moved, and neither did folders and links. -/
structure Still (w w' : World) : Prop where
  cwd : w'.cwd = w.cwd
  shape : w.disk.SameShape w'.disk

theorem Still.refl (w : World) : Still w w :=
  ⟨rfl, .refl _⟩

theorem Still.trans (u v w : World) (first : Still u v) (second : Still v w) : Still u w :=
  ⟨second.cwd.trans first.cwd, first.shape.trans second.shape⟩

theorem Still.of_disk_eq (disk : w'.disk = w.disk) (cwd : w'.cwd = w.cwd) : Still w w' :=
  ⟨cwd, disk ▸ .refl _⟩

theorem OnlyLogged.still {logs : Set Nat} (logged : OnlyLogged logs w w') : Still w w' :=
  ⟨logged.cwd, logged.sameShape⟩

theorem Still.carries (still : Still w w') (tree : w.disk.IsTree) : Carries [] w w' where
  tree := tree.of_sameShape still.shape
  cwd := still.cwd
  ways := ⟨still.shape.keeps, still.shape.symm.keeps⟩
  files := by
    rw [FileMap.run_nil]
    congr 1
    funext loc
    refine Option.ext fun id => ?_
    rw [World.files, World.files, Disk.fileAt?_eq_shape, Disk.fileAt?_eq_shape, still.shape loc]

theorem ask_still {α : Type} (f : Disk → Location → Except DiskFault α) :
    Along Still (World.ask f) := by
  intro w
  rw [run_ask]
  exact .refl w

/-- Setting times and permissions moves nothing. -/
theorem act_still {deed : Deed} (touch : deed.isTouch = true) : Along Still (act deed) := by
  intro w
  rw [run_act]
  split
  · next disk done =>
    refine ⟨rfl, fun loc => ?_⟩
    cases deed with
    | setMode p mode =>
        cases found : w.disk.findEntry w.cwd true p with
        | error fault =>
            rw [Deed.doOn, Disk.setMode, found] at done
            cases done
        | ok at_path =>
            rw [Deed.doOn, Disk.setMode, found] at done
            cases done
            exact (Disk.shape?_mapStats ..).symm
    | setTimes p modified accessed =>
        cases found : w.disk.findEntry w.cwd true p with
        | error fault =>
            rw [Deed.doOn, Disk.setTimes, found] at done
            cases done
        | ok at_path =>
            obtain ⟨loc', entry⟩ := at_path
            rw [Deed.doOn, Disk.setTimes, found] at done
            cases entry with
            | file id =>
                cases done
                exact (Disk.shape?_mapStats ..).symm
            | _ => cases done
    | _ => cases touch
  · exact .of_disk_eq rfl rfl

end World

/-- Writing the state of a file moves nothing. -/
theorem FileState.apply_still (s : FileState) : Along World.Still s.apply := by
  have mode : ∀ p mode, Along World.Still (setMode p mode) := fun p mode => World.act_still rfl
  have write : ∀ former, Along World.Still (tryCatch
      (do
        World.act (.setTimes s.path s.modified s.accessed)
        setMode s.path (s.targetMode former))
      fun fault => do
        tryCatch (setMode s.path former) fun _ => pure ()
        throw fault) := by
    intro former
    refine .tryCatch World.Still.trans ?_ fun fault => ?_
    · exact .bind World.Still.trans (World.act_still rfl) fun _ => mode _ _
    · refine .bind World.Still.trans ?_ fun _ => .throw World.Still.refl _
      exact .tryCatch World.Still.trans (mode _ _) fun _ => .pure World.Still.refl _
  refine .bind World.Still.trans (World.ask_still _) fun stats => ?_
  refine .ite (fun _ => ?_) fun _ => write _
  exact .bind World.Still.trans (mode _ _) fun _ => write _

end Renumber
