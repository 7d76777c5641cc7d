import Mathlib.Data.Set.Basic
import Renumber.Proofs.Disk.Plain
import Renumber.Proofs.Moves
import Renumber.Proofs.World.Rename

/-!
# Renaming where only files move

Where every folder is there and paths lead to files at most, renaming makes no folder
and replaces nothing. A rename is then a move in the map of files, and it fails exactly
when that move is not possible. Folders and links stay, and with them all places.
-/

namespace Renumber

namespace Disk

variable {d d' : Disk} {cwd : Location} {p : Path}

/-- Two disks with the same folders and links. -/
def SameWays (d d' : Disk) : Prop :=
  d.Keeps d' ∧ d'.Keeps d

theorem SameWays.refl (d : Disk) : d.SameWays d :=
  ⟨.refl d, .refl d⟩

theorem SameWays.symm (same : d.SameWays d') : d'.SameWays d :=
  ⟨same.2, same.1⟩

theorem SameWays.trans {a b c : Disk} (first : a.SameWays b) (second : b.SameWays c) :
    a.SameWays c :=
  ⟨first.1.trans second.1, second.2.trans first.2⟩

theorem SameWays.place? (same : d.SameWays d') (cwd : Location) :
    d'.place? cwd = d.place? cwd :=
  funext (place?_congr same.1 same.2 cwd)

/-- With the same folders and links, and one file or none at a location, two disks have
the same there. -/
theorem SameWays.shape?_eq (same : d.SameWays d') {loc : Location}
    (files : d'.fileAt? loc = d.fileAt? loc) : d'.shape? loc = d.shape? loc := by
  have half : ∀ {a b : Disk}, a.Keeps b → b.fileAt? loc = a.fileAt? loc →
      ∀ s, a.shape? loc = some s → b.shape? loc = some s := by
    intro a b keeps files s there
    cases s with
    | folder => exact keeps.folder loc there
    | link target => exact keeps.link loc target there
    | file id => exact fileAt?_eq_shape.1 (files.trans (fileAt?_eq_shape.2 there))
  exact Option.ext fun s => ⟨half same.2 files.symm s, half same.1 files s⟩

theorem SameWays.sameShape (same : d.SameWays d') (files : d'.fileAt? = d.fileAt?) :
    d.SameShape d' :=
  fun loc => (same.shape?_eq (congrFun files loc)).symm

/-- Files may come and go at a path as long as folders and links stay. -/
theorem FlatAt.of_sameWays (flat : d.FlatAt cwd p) (same : d.SameWays d') : d'.FlatAt cwd p where
  parent q parent := (flat.parent q parent).imp_right (isFolder_keeps same.1)
  file loc e found := by
    have there := get?_of_findEntry found
    -- A folder or a link would have been there before.
    have earlier : ∀ e₀, d.get? loc = some e₀ → e₀.shape = e.shape → ∃ id, e = .file id := by
      intro e₀ before shape
      obtain ⟨id, rfl⟩ := flat.file loc e₀ (findEntry_keeps same.2 found before shape)
      exact ⟨id, Entry.shape_eq_file.1 shape.symm⟩
    cases e with
    | file id => exact ⟨id, rfl⟩
    | folder stats =>
        obtain ⟨stats', before⟩ :=
          shape?_eq_folder.1 (same.2.folder loc (shape?_eq_folder.2 ⟨stats, there⟩))
        exact earlier _ before rfl
    | link target =>
        exact earlier _ (shape?_eq_link.1 (same.2.link loc target (shape?_eq_link.2 there))) rfl

/-- A file that is carried to a vacant location leaves all folders and links. -/
theorem SameWays.of_moved {old new : Location} {id : Nat}
    (shape : ∀ loc, d'.shape? loc = if new = loc then some (.file id)
      else if old = loc then none else d.shape? loc)
    (there : d.shape? old = some (.file id)) (free : d.shape? new = none) : d.SameWays d' := by
  have elsewhere : ∀ loc s, d.shape? loc = some s → s ≠ .file id → d'.shape? loc = some s := by
    intro loc s before other
    rw [shape, if_neg, if_neg]
    · exact before
    · rintro rfl
      rw [there] at before
      exact other (Option.some.inj before).symm
    · rintro rfl
      rw [free] at before
      cases before
  have before : ∀ loc s, d'.shape? loc = some s → s ≠ .file id → d.shape? loc = some s := by
    intro loc s after other
    rw [shape] at after
    split at after
    · exact absurd (Option.some.inj after).symm other
    · split at after
      · cases after
      · exact after
  exact ⟨⟨fun loc h => elsewhere loc _ h (by simp), fun loc _ h => elsewhere loc _ h (by simp)⟩,
    ⟨fun loc h => before loc _ h (by simp), fun loc _ h => before loc _ h (by simp)⟩⟩

/-- At the place of a flat path stands a file or nothing. -/
theorem FlatAt.get?_place (flat : d.FlatAt cwd p) {loc : Location}
    (place : d.place? cwd p = some loc) : d.get? loc = (d.fileAt? loc).map .file :=
  (flat.site place).get?_eq

/-- A file is carried from one location to the other. -/
theorem fileAt?_carried_file (now : Time.Instant) {oldFolder newFolder : Location}
    {oldName newName : Name} {id : Nat} (there : d.get? (oldFolder ++ [oldName]) = some (.file id))
    (apart : oldFolder ++ [oldName] ≠ newFolder ++ [newName]) :
    (d.carried now oldFolder oldName newFolder newName).fileAt? = fun loc =>
      if loc = newFolder ++ [newName] then some id
      else if loc = oldFolder ++ [oldName] then none else d.fileAt? loc := by
  funext loc
  refine Option.ext fun n => ?_
  rw [fileAt?_eq_shape, shape?_carried_leaf now there (by simp) apart]
  by_cases at_new : newFolder ++ [newName] = loc
  · subst at_new
    simp
  · rw [if_neg at_new, if_neg (Ne.symm at_new)]
    by_cases at_old : oldFolder ++ [oldName] = loc
    · subst at_old
      simp
    · rw [if_neg at_old, if_neg (Ne.symm at_old), ← fileAt?_eq_shape]

/-- On a tree a file can be moved to a free location: neither is the file above that, nor is the
location above the file. -/
theorem movable_of_file (tree : d.IsTree) {source target : Path} {oldFolder newFolder : Location}
    {oldName newName : Name} {id : Nat}
    (source_last : d.findLast cwd source = .ok ⟨oldFolder, some oldName, false⟩)
    (target_last : d.findLast cwd target = .ok ⟨newFolder, some newName, false⟩)
    (short : newName.length ≤ maxName) (there : d.get? (oldFolder ++ [oldName]) = some (.file id))
    (free : d.get? (newFolder ++ [newName]) = none) :
    d.Movable cwd source target oldFolder oldName newFolder newName (.file id) := by
  have new_folder := folder_of_findLast target_last
  have old_folder := folder_of_findLast source_last
  refine ⟨⟨false, source_last, by simp⟩, ⟨false, target_last, by simp⟩, there, short, ?_, ?_⟩
  · intro below
    have leaf : d.shape? (oldFolder ++ [oldName]) ≠ some .folder := by
      rw [shape?_eq_file.2 there]
      exact Shape.noConfusion ∘ Option.some.inj
    by_cases same : oldFolder ++ [oldName] = newFolder
    · exact leaf (same ▸ new_folder)
    · exact leaf (tree.folder_above (by simp [new_folder]) below same)
  · intro above
    have missing : d.shape? (newFolder ++ [newName]) ≠ some .folder := by
      rw [shape?_eq_none.2 free]
      exact (Option.some_ne_none _).symm
    by_cases same : newFolder ++ [newName] = oldFolder
    · exact missing (same ▸ old_folder)
    · exact missing (tree.folder_above (by simp [old_folder]) above same)

theorem get?_of_fileAt? {loc : Location} {id : Nat} (there : d.fileAt? loc = some id) :
    d.get? loc = some (.file id) :=
  fileAt?_eq_some.1 there

end Disk

namespace World

open Outcome
open Renumber.Time (Instant)

/-- Only files moved from one world to another: folders, links and the data of files are
as before, apart from what was written to logs. -/
structure Shuffles (logs : Set Nat) (w w' : World) : Prop where
  cwd : w'.cwd = w.cwd
  ways : w.disk.SameWays w'.disk
  data : ∀ id, id ∉ logs → w'.disk.file? id = w.disk.file? id
  fresh : w'.disk.fresh = w.disk.fresh
  mode : ∀ id, w'.disk.modeOf? id = w.disk.modeOf? id

variable {logs : Set Nat}

theorem Shuffles.refl (w : World) : Shuffles logs w w :=
  ⟨rfl, .refl _, fun _ _ => rfl, rfl, fun _ => rfl⟩

theorem Shuffles.trans {u v w : World} (first : Shuffles logs u v) (second : Shuffles logs v w) :
    Shuffles logs u w where
  cwd := second.cwd.trans first.cwd
  ways := first.ways.trans second.ways
  data id other := (second.data id other).trans (first.data id other)
  fresh := second.fresh.trans first.fresh
  mode id := (second.mode id).trans (first.mode id)

/-- The place of a path in a world. -/
def place? (w : World) (p : Path) : Option Location :=
  w.disk.place? w.cwd p

/-- The files of a world. -/
def files (w : World) : FileMap :=
  w.disk.fileAt?

/-- A path at which only files come and go. -/
def FlatAt (w : World) (p : Path) : Prop :=
  w.disk.FlatAt w.cwd p

/-- The place of a path at which a file stands, or nothing. -/
def Site (w : World) (p : Path) (loc : Location) : Prop :=
  w.disk.Site w.cwd p loc

theorem Site.flatAt {w : World} {p : Path} {loc : Location} (site : w.Site p loc) : w.FlatAt p :=
  Disk.Site.flatAt site

theorem Shuffles.place? {w w' : World} (shuffles : Shuffles logs w w') : w'.place? = w.place? := by
  funext p
  rw [World.place?, World.place?, shuffles.cwd, shuffles.ways.place?]

theorem Shuffles.flatAt {w w' : World} (shuffles : Shuffles logs w w') {p : Path}
    (flat : w.FlatAt p) : w'.FlatAt p := by
  rw [FlatAt, shuffles.cwd]
  exact Disk.FlatAt.of_sameWays flat shuffles.ways

/-- The way of a flat path needs no folder. -/
theorem run_makeWay_of_flatAt {w : World} {target : Path} (flat : w.FlatAt target) :
    (makeWay target).run.run w = (.ok (), w) := by
  rw [run_makeWay]
  cases parent : target.parent? with
  | none => rfl
  | some q =>
      have given : (q.isEmpty || w.reaches q) = true := by
        rcases flat.parent q parent with empty | folder
        · simp [empty]
        · simp [reaches, Disk.reaches_of_isFolder folder]
      simp only [given, ↓reduceIte]

/-- A move from one flat path to a free one is a move in the map of files. -/
theorem step_of_move {w : World} {source target : Path} {now : Instant} {disk : Disk}
    (flat_source : w.FlatAt source) (found : (w.disk.findEntry w.cwd false source).isOk = true)
    (free : w.present target = false)
    (moved : w.disk.move now w.cwd source target = .ok disk) :
    ∃ files', FileMap.step w.place? w.files (source, target) = some files' := by
  obtain ⟨oldFolder, oldName, newFolder, newName, entry, movable, outcome⟩ :=
    Disk.move_eq_ok.1 moved
  obtain ⟨oldSlashed, source_last, source_slashes⟩ := movable.source_last
  obtain ⟨newSlashed, target_last, target_slashes⟩ := movable.target_last
  have short : oldName.length ≤ Disk.maxName := by
    by_contra long
    rw [Disk.findEntry, Disk.find_long source_last (by omega)] at found
    cases found
  -- What moves is a file: anything else would have been found at the source.
  obtain ⟨id, rfl⟩ : ∃ id, entry = .file id := by
    cases entry with
    | file id => exact ⟨id, rfl⟩
    | folder stats =>
        refine flat_source.file (oldFolder ++ [oldName]) (.folder stats) ?_
        rw [Disk.findEntry, Disk.find_folder source_last short movable.there]
        rfl
    | link aim =>
        cases oldSlashed with
        | true => cases source_slashes rfl
        | false =>
            refine flat_source.file (oldFolder ++ [oldName]) (.link aim) ?_
            rw [Disk.findEntry, Disk.find_link source_last short movable.there]
            rfl
  have not_slashed : oldSlashed = false ∧ newSlashed = false := by
    constructor
    · cases oldSlashed with
      | false => rfl
      | true => cases source_slashes rfl
    · cases newSlashed with
      | false => rfl
      | true => cases target_slashes rfl
  obtain ⟨rfl, rfl⟩ := not_slashed
  have source_place : w.place? source = some (oldFolder ++ [oldName]) :=
    Disk.place?_eq_some.2 ⟨_, _, source_last, short, rfl⟩
  have target_place : w.place? target = some (newFolder ++ [newName]) :=
    Disk.place?_eq_some.2 ⟨_, _, target_last, movable.short, rfl⟩
  have vacant : w.files (newFolder ++ [newName]) = none := by
    rw [present, Disk.present_of_place target_place] at free
    simp only [Option.isSome_eq_false_iff, Option.isNone_iff_eq_none] at free
    simp [files, Disk.fileAt?, free]
  exact ⟨_, FileMap.step_eq_some'.2 ⟨_, _, id, source_place, target_place,
    Disk.fileAt?_eq_some.2 movable.there, vacant, rfl⟩⟩

/-- A move in the map of files is done by the disk. -/
theorem move_of_step {w : World} {source target : Path} (now : Instant) {files' : FileMap}
    (tree : w.disk.IsTree) (flat_target : w.FlatAt target)
    (step : FileMap.step w.place? w.files (source, target) = some files') :
    ∃ disk, w.disk.move now w.cwd source target = .ok disk ∧ disk.IsTree ∧
      disk.fileAt? = files' ∧ w.disk.SameWays disk ∧ (∀ id, disk.file? id = w.disk.file? id) ∧
      disk.fresh = w.disk.fresh := by
  obtain ⟨a, b, id, source_place, target_place, there, vacant, rfl⟩ :=
    FileMap.step_eq_some'.1 step
  obtain ⟨oldFolder, oldName, source_last, -, rfl⟩ := Disk.place?_eq_some.1 source_place
  obtain ⟨newFolder, newName, target_last, short, rfl⟩ := Disk.place?_eq_some.1 target_place
  have there : w.disk.get? (oldFolder ++ [oldName]) = some (.file id) := Disk.get?_of_fileAt? there
  have free : w.disk.get? (newFolder ++ [newName]) = none := by
    rw [flat_target.get?_place target_place]
    exact Option.map_eq_none_iff.2 vacant
  have apart : oldFolder ++ [oldName] ≠ newFolder ++ [newName] := by
    intro same
    rw [same, free] at there
    cases there
  have movable := Disk.movable_of_file tree source_last target_last short there free
  have other : ¬w.disk.alreadyThere (oldFolder ++ [oldName]) (newFolder ++ [newName])
      (.file id) := by
    rintro (same | same)
    · exact apart same
    · simp [free] at same
  refine ⟨_, Disk.move_eq_ok.2 ⟨oldFolder, oldName, newFolder, newName, .file id, movable,
    .inr ⟨other, ?_, rfl⟩⟩, ?_, Disk.fileAt?_carried_file now there apart, ?_,
    fun _ => Disk.file?_carried .., Disk.fresh_carried ..⟩
  · rw [free]
    rfl
  · exact tree.carried_leaf there (by simp) apart (Disk.folder_of_findLast target_last)
      (by simp [Disk.shape?, free])
  · exact .of_moved (Disk.shape?_carried_leaf now there (by simp) apart)
      (Disk.shape?_eq_file.2 there) (Disk.shape?_eq_none.2 free)

/-- A rename between flat paths succeeds when the move is possible, and does it. -/
theorem renameFile_of_step (logs : Set Nat) {w : World} {source target : Path} {files' : FileMap}
    (tree : w.disk.IsTree) (flat_target : w.FlatAt target)
    (step : FileMap.step w.place? w.files (source, target) = some files') :
    ∃ w', (renameFile source target).run.run w = (.ok (), w') ∧ w'.disk.IsTree ∧
      w'.files = files' ∧ w'.interrupt = w.interrupt ∧ Shuffles logs w w' := by
  obtain ⟨disk, moved, tree', files, ways, data, fresh⟩ :=
    move_of_step w.clock tree flat_target step
  obtain ⟨a, b, id, source_place, target_place, there, vacant, -⟩ := FileMap.step_eq_some'.1 step
  have found : w.disk.findEntry w.cwd false source = .ok (a, .file id) := by
    rw [Disk.findEntry_of_place source_place, Disk.get?_of_fileAt? there]
  have free : w.present target = false := by
    have vacant : w.disk.fileAt? b = none := vacant
    rw [present, Disk.present_of_place target_place, flat_target.get?_place target_place, vacant]
    rfl
  let w' : World := { w with
    disk
    clock := w.clock.after clockStep
    deeds := (Deed.move source target).anchored w.folder :: w.deeds }
  have modes : ∀ id, disk.modeOf? id = w.disk.modeOf? id := fun id => Disk.modeOf?_congr (data id)
  refine ⟨w', ?_, tree', files, rfl, ⟨rfl, ways, fun id _ => data id, fresh, modes⟩⟩
  rw [run_renameFile, found, if_neg (by simp [free]), run_makeWay_of_flatAt flat_target]
  simp only [run_act, Deed.doOn, moved]
  rfl

/-- A rename between flat paths fails when the move is not possible, and changes
nothing. -/
theorem renameFile_of_no_step {w : World} {source target : Path}
    (flat_source : w.FlatAt source) (flat_target : w.FlatAt target)
    (step : FileMap.step w.place? w.files (source, target) = none) :
    ∃ fault w', (renameFile source target).run.run w = (.error fault, w') ∧ w'.disk = w.disk ∧
      w'.cwd = w.cwd ∧ w'.interrupt = w.interrupt := by
  rw [run_renameFile]
  cases found : w.disk.findEntry w.cwd false source with
  | error fault => exact ⟨fault, w, rfl, rfl, rfl, rfl⟩
  | ok at_source =>
      by_cases taken : w.present target = true
      · rw [if_pos taken]
        exact ⟨_, w, rfl, rfl, rfl, rfl⟩
      · rw [if_neg taken, run_makeWay_of_flatAt flat_target]
        simp only [run_act, Deed.doOn]
        cases moved : w.disk.move w.clock w.cwd source target with
        | error fault => exact ⟨fault, _, rfl, rfl, rfl, rfl⟩
        | ok disk =>
            obtain ⟨files', possible⟩ := step_of_move flat_source (by rw [found]; rfl)
              (by simpa using taken) moved
            rw [step] at possible
            cases possible

/-- Rename files one after the other, up to the first that cannot be renamed. -/
def renameAll : List (Path × Path) → Act DiskFault Unit
  | [] => pure ()
  | m :: rest => do
    renameFile m.1 m.2
    renameAll rest

theorem run_renameAll_cons (m : Path × Path) (rest : List (Path × Path)) (w : World) :
    (renameAll (m :: rest)).run.run w = match (renameFile m.1 m.2).run.run w with
      | (.ok _, w') => (renameAll rest).run.run w'
      | (.error fault, w') => (.error fault, w') := by
  rw [renameAll, run_bind]
  rcases (renameFile m.1 m.2).run.run w with ⟨r | r, w'⟩ <;> rfl

/-- Renames between flat paths all succeed when the moves are possible one after the
other, and do them. -/
theorem renameAll_of_run (logs : Set Nat) {w : World} {moves : List (Path × Path)} {files' : FileMap}
    (tree : w.disk.IsTree) (flat : ∀ m ∈ moves, w.FlatAt m.2)
    (possible : FileMap.run w.place? moves w.files = some files') :
    ∃ w', (renameAll moves).run.run w = (.ok (), w') ∧ w'.disk.IsTree ∧ w'.files = files' ∧
      w'.interrupt = w.interrupt ∧ Shuffles logs w w' := by
  induction moves generalizing w with
  | nil =>
      cases possible
      exact ⟨w, rfl, tree, rfl, rfl, .refl w⟩
  | cons m rest ih =>
      obtain ⟨between, step, later⟩ := Option.bind_eq_some_iff.1 (FileMap.run_cons m rest _ ▸ possible)
      obtain ⟨w', first, tree', rfl, interrupt, shuffles⟩ :=
        renameFile_of_step logs tree (flat m List.mem_cons_self) step
      obtain ⟨w'', others, tree'', files, interrupt', shuffles'⟩ :=
        ih tree' (fun m member => shuffles.flatAt (flat m (List.mem_cons_of_mem _ member)))
          (shuffles.place? ▸ later)
      refine ⟨w'', ?_, tree'', files, interrupt'.trans interrupt, shuffles.trans shuffles'⟩
      rw [run_renameAll_cons, first]
      exact others

end World

end Renumber
