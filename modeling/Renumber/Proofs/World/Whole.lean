import Renumber.Proofs.Disk.Kept
import Renumber.Proofs.World.Sample
import Renumber.Proofs.World.Way

/-!
# Renames that are made whole

A rename makes the folders above its target and then moves. If it is refused before the first
folder is made, nothing has happened; if nothing refuses it, the entry stands at its target with
all that was below it, and nothing else is different but for these folders. Between the two there
is one way to fail, and one to succeed where something was before. Both need a target whose
folder is missing.
-/

namespace Renumber

open Outcome

namespace Disk

variable {d d' : Disk} {cwd : Location} {source target p : Path}

/-- A path ends in a name that has this location. -/
def Names (d : Disk) (cwd : Location) (p : Path) (loc : Location) : Prop :=
  ∃ folder name slashed, d.findLast cwd p = .ok ⟨folder, some name, slashed⟩ ∧ loc = folder ++ [name]

theorem Names.unique {loc loc' : Location} (names : d.Names cwd p loc) (names' : d.Names cwd p loc') :
    loc = loc' := by
  obtain ⟨folder, name, slashed, last, rfl⟩ := names
  obtain ⟨folder', name', slashed', last', rfl⟩ := names'
  cases last.symm.trans last'
  rfl

/-- What stands where after everything at one location and below it was moved to another. -/
def Relocated (d d' : Disk) (old new : Location) : Prop :=
  ∀ loc, d'.shape? loc =
    if new <+: loc then d.shape? (old ++ loc.drop new.length)
    else if old <+: loc then none
    else d.shape? loc

section

variable {oldFolder newFolder : Location} {oldName newName : Name} {entry : Entry}

theorem Movable.names_target
    (movable : d.Movable cwd source target oldFolder oldName newFolder newName entry) :
    d.Names cwd target (newFolder ++ [newName]) := by
  obtain ⟨slashed, last, -⟩ := movable.target_last
  exact ⟨newFolder, newName, slashed, last, rfl⟩

/-- The entry that is moved is the one that the source leads to. -/
theorem Movable.found_source {loc : Location} {e : Entry}
    (movable : d.Movable cwd source target oldFolder oldName newFolder newName entry)
    (found : d.findEntry cwd false source = .ok (loc, e)) : loc = oldFolder ++ [oldName] ∧ e = entry := by
  obtain ⟨slashed, last, folder_only⟩ := movable.source_last
  have short : oldName.length ≤ maxName := by
    by_contra long
    rw [findEntry, find_long last (Nat.lt_of_not_le long)] at found
    cases found
  have own : d.findEntry cwd false source = .ok (oldFolder ++ [oldName], entry) := by
    cases slashed with
    | true =>
        obtain ⟨stats, rfl⟩ := Entry.shape_eq_folder.1 (folder_only rfl)
        rw [findEntry, find_folder last short movable.there]
        rfl
    | false => rw [findEntry_of_place (place?_eq_some.2 ⟨_, _, last, short, rfl⟩), movable.there]
  cases found.symm.trans own
  exact ⟨rfl, rfl⟩

/-- A move that nothing refuses goes to a place that is free, or that the target leads to. -/
theorem Movable.present_target
    (movable : d.Movable cwd source target oldFolder oldName newFolder newName entry)
    (outcome : d.alreadyThere (oldFolder ++ [oldName]) (newFolder ++ [newName]) entry ∨
      d.checkReplace entry (newFolder ++ [newName]) (d.get? (newFolder ++ [newName])) = .ok ())
    (taken : d.get? (newFolder ++ [newName]) ≠ none) : d.present cwd target = true := by
  obtain ⟨e, there⟩ := Option.ne_none_iff_exists'.1 taken
  obtain ⟨slashed, last, folder_only⟩ := movable.target_last
  cases slashed with
  | false =>
      rw [present_of_place (place?_eq_some.2 ⟨_, _, last, movable.short, rfl⟩), there]
      rfl
  | true =>
      -- only a folder is moved to such a target, and it takes the place of a folder only
      obtain ⟨stats, rfl⟩ := Entry.shape_eq_folder.1 (folder_only rfl)
      have replaced : ∃ stats', e = .folder stats' := by
        obtain (same | same) | replace := outcome
        · rw [← same, movable.there] at there
          exact ⟨stats, (Option.some.inj there).symm⟩
        · rw [there] at same
          cases same
        · rw [there] at replace
          cases e with
          | folder stats' => exact ⟨stats', rfl⟩
          | file id => cases replace
          | link path => cases replace
      obtain ⟨stats', rfl⟩ := replaced
      rw [present, findEntry, find_folder last movable.short there]
      rfl

end

end Disk

namespace World

variable {w w' : World} {source target : Path}

/-- The folders that are made for a target are on its way. -/
theorem makeWay_growsToward (target : Path) : Along (GrowsToward target) (makeWay target) := by
  intro w
  rw [run_makeWay]
  split
  · next folder parent =>
    split
    · exact .refl target w
    · have up := (LeadsUp.refl target).parent parent
      exact makeFoldersFrom_growsToward up (fun r member => leadsUp_of_mem_ancestorsFrom up member) w
  · exact .refl target w

theorem present_iff : w.present source = true ↔ ∃ found, w.disk.findEntry w.cwd false source = .ok found := by
  rw [present, Disk.present]
  cases w.disk.findEntry w.cwd false source with
  | error fault =>
      apply iff_of_false Bool.false_ne_true
      rintro ⟨found, there⟩
      cases there
  | ok found => exact iff_of_true rfl ⟨found, rfl⟩

/-- The source is there and nothing is at the target, so that a rename goes on to make folders. -/
def Tried (w : World) (source target : Path) : Prop :=
  w.present source = true ∧ w.present target = false

/-- All that a rename can come to. -/
inductive Course (w : World) (source target : Path) : Except DiskFault Unit × World → Prop where
  | refused (fault : DiskFault) (untried : ¬w.Tried source target) : Course w source target (.error fault, w)
  | blocked (fault : DiskFault) (w₁ : World) (tried : w.Tried source target)
      (made : (makeWay target).run.run w = (.error fault, w₁)) : Course w source target (.error fault, w₁)
  | stuck (fault : DiskFault) (w₁ : World) (tried : w.Tried source target)
      (made : (makeWay target).run.run w = (.ok (), w₁))
      (moved : w₁.disk.move w₁.clock w₁.cwd source target = .error fault) :
      Course w source target (.error fault, { w₁ with clock := w₁.clock.after clockStep })
  | done (disk : Disk) (w₁ w' : World) (tried : w.Tried source target)
      (made : (makeWay target).run.run w = (.ok (), w₁))
      (moved : w₁.disk.move w₁.clock w₁.cwd source target = .ok disk) (left : w'.disk = disk) :
      Course w source target (.ok (), w')

theorem renameFile_course (w : World) (source target : Path) :
    Course w source target ((renameFile source target).run.run w) := by
  rw [run_renameFile]
  cases found : w.disk.findEntry w.cwd false source with
  | error fault =>
      refine .refused fault fun tried => ?_
      obtain ⟨at_source, there⟩ := present_iff.1 tried.1
      cases found.symm.trans there
  | ok at_source =>
      dsimp only
      split
      · next taken =>
        refine .refused _ fun tried => ?_
        cases taken.symm.trans tried.2
      · next free =>
        have tried : w.Tried source target := ⟨present_iff.2 ⟨_, found⟩, Bool.eq_false_iff.2 free⟩
        rcases made : (makeWay target).run.run w with ⟨fault | ⟨⟩, w₁⟩
        · exact .blocked fault w₁ tried made
        · dsimp only
          rw [run_act]
          cases moved : (Deed.move source target).doOn w₁.disk w₁.clock w₁.cwd with
          | error fault => exact .stuck fault w₁ tried made moved
          | ok disk => exact .done disk w₁ _ tried made moved rfl

/-! ## Whole renames -/

/-- A failure has changed nothing on the disk. After a success the source's entry and all below it were moved
to where the target leads once the missing folders on its way are made, a place at which nothing was
before; and nothing else is different from the disk with these folders. -/
def RenamesWhole (w : World) (source target : Path) : Prop :=
  match (renameFile source target).run.run w with
  | (.error _, w') => w'.disk = w.disk
  | (.ok _, w') => ∃ w₁ old new entry, (makeWay target).run.run w = (.ok (), w₁) ∧ GrowsToward target w w₁ ∧
      w.disk.findEntry w.cwd false source = .ok (old, entry) ∧ w₁.disk.Names w.cwd target new ∧
      w.disk.get? new = none ∧ w₁.disk.Relocated w'.disk old new ∧ ∀ id, w'.disk.file? id = w.disk.file? id

/-- Behind its checks a rename is refused, at one of the folders or at the move. -/
def Refuses (w : World) (source target : Path) : Prop :=
  ∀ w₁, (makeWay target).run.run w = (.ok (), w₁) →
    ∃ fault, w₁.disk.move w₁.clock w₁.cwd source target = .error fault

/-- After a folder was made for the target something refuses, another folder or the move. -/
def Strands (w : World) (source target : Path) : Prop :=
  w.Tried source target ∧ ((makeWay target).run.run w).2.disk ≠ w.disk ∧ w.Refuses source target

/-- Nothing refuses, but once its folders are made the target leads to something that was there before. -/
def Overruns (w : World) (source target : Path) : Prop :=
  w.Tried source target ∧ ∃ w₁ new disk, (makeWay target).run.run w = (.ok (), w₁) ∧
    w₁.disk.Names w.cwd target new ∧ w.disk.get? new ≠ none ∧
    w₁.disk.move w₁.clock w₁.cwd source target = .ok disk

/-- A move to a place that folders only can have come to does carry its entry. -/
theorem not_alreadyThere {w₁ : World} {old new : Location} {entry : Entry} (grows : w.Grows w₁)
    (there : w.disk.shape? old ≠ none) (free : w.disk.shape? new = none) :
    ¬w₁.disk.alreadyThere old new entry := by
  rintro (rfl | same)
  · exact there free
  · -- only a file can be the source already, and no file came
    cases standing : w₁.disk.get? new with
    | none =>
        rw [standing] at same
        cases same
    | some e =>
        rw [standing] at same
        have shape : w₁.disk.shape? new = some e.shape := Disk.shape?_eq_some.2 ⟨e, standing, rfl⟩
        obtain kept | ⟨-, folder⟩ := grows.disk.shape new
        · rw [shape, free] at kept
          cases kept
        · rw [folder] at shape
          obtain ⟨stats, rfl⟩ := Entry.shape_eq_folder.1 (Option.some.inj shape).symm
          cases entry <;> cases same

/-- A move that is made comes after folders for the target, and is whole where its place was free. -/
theorem relocated_of_move {w₁ : World} {disk : Disk} {loc : Location} {e : Entry} (tree : w.disk.IsTree)
    (grows : w.Grows w₁) (found : w.disk.findEntry w.cwd false source = .ok (loc, e))
    (moved : w₁.disk.move w₁.clock w₁.cwd source target = .ok disk) :
    ∃ new, w₁.disk.Names w.cwd target new ∧
      (w.disk.get? new = none → w₁.disk.Relocated disk loc new ∧ ∀ id, disk.file? id = w.disk.file? id) := by
  rw [grows.cwd] at moved
  obtain ⟨oldFolder, oldName, newFolder, newName, entry, movable, outcome⟩ := Disk.move_eq_ok.1 moved
  have widens := grows.disk
  have there : w.disk.shape? loc = some e.shape := Disk.shape?_eq_some.2 ⟨e, Disk.get?_of_findEntry found, rfl⟩
  -- the source leads where it led before the folders were made
  have at_old : loc = oldFolder ++ [oldName] := by
    have stays : w₁.disk.shape? loc = some e.shape := by
      obtain same | ⟨missing, -⟩ := widens.shape loc
      · exact same.trans there
      · rw [missing] at there
        cases there
    obtain ⟨e', standing, shape⟩ := Disk.shape?_eq_some.1 stays
    exact (movable.found_source (Disk.findEntry_keeps widens.keeps found standing shape)).1
  refine ⟨newFolder ++ [newName], movable.names_target, fun free => ?_⟩
  obtain ⟨already, rfl⟩ | ⟨other, replace, rfl⟩ := outcome
  · rw [← at_old] at already
    have standing : w.disk.shape? loc ≠ none := by
      rw [there]
      exact Option.some_ne_none _
    exact absurd already (not_alreadyThere grows standing (Disk.shape?_eq_none.2 free))
  · rw [at_old]
    refine ⟨Disk.shape?_carried w₁.clock (widens.tree tree) movable other replace, fun id => ?_⟩
    rw [Disk.file?_carried, widens.file]

theorem Strands.lacksFolder (strands : w.Strands source target) : w.LacksFolder target := by
  by_contra given
  have made := strands.2.1
  rw [run_makeWay_of_folder given] at made
  exact made rfl

theorem Overruns.lacksFolder (overruns : w.Overruns source target) : w.LacksFolder target := by
  obtain ⟨tried, w₁, new, disk, made, names, taken, moved⟩ := overruns
  by_contra given
  rw [run_makeWay_of_folder given] at made
  cases made
  obtain ⟨oldFolder, oldName, newFolder, newName, entry, movable, outcome⟩ := Disk.move_eq_ok.1 moved
  obtain rfl := names.unique movable.names_target
  have free := tried.2
  rw [present, movable.present_target (outcome.imp And.left fun carried => carried.2.1) taken] at free
  cases free

/-- What a rename that fails leaves behind are folders on the way of its target. -/
theorem renameFile_error_growsToward {fault : DiskFault}
    (failed : (renameFile source target).run.run w = (.error fault, w')) : GrowsToward target w w' := by
  have course := renameFile_course w source target
  have toward := makeWay_growsToward target w
  rw [failed] at course
  cases course with
  | refused => exact .refl target w
  | blocked _ _ _ made =>
      rw [made] at toward
      exact toward
  | stuck _ w₁ _ made _ =>
      rw [made] at toward
      exact ⟨⟨toward.grows.cwd, toward.grows.interrupt, toward.grows.disk⟩, toward.new⟩

/-- A rename that is refused behind its checks is whole iff no folder was made for it. -/
theorem way_unchanged_iff (tried : w.Tried source target) (refuses : w.Refuses source target) :
    ((makeWay target).run.run w).2.disk = w.disk ↔
      ¬w.Strands source target ∧ ¬w.Overruns source target := by
  constructor
  · intro same
    refine ⟨fun strands => strands.2.1 same, ?_⟩
    rintro ⟨-, w₁, -, disk, made, -, -, moved⟩
    obtain ⟨fault, refused⟩ := refuses w₁ made
    cases refused.symm.trans moved
  · rintro ⟨no_strand, -⟩
    by_contra changed
    exact no_strand ⟨tried, changed, refuses⟩

/-- A rename that is not refused is whole iff its place was free. -/
theorem place_free_iff {w₁ : World} {new : Location} {disk : Disk} (tried : w.Tried source target)
    (made : (makeWay target).run.run w = (.ok (), w₁)) (names : w₁.disk.Names w.cwd target new)
    (moved : w₁.disk.move w₁.clock w₁.cwd source target = .ok disk) :
    w.disk.get? new = none ↔ ¬w.Strands source target ∧ ¬w.Overruns source target := by
  constructor
  · intro free
    constructor
    · rintro ⟨-, -, refuses⟩
      obtain ⟨fault, refused⟩ := refuses w₁ made
      cases refused.symm.trans moved
    · rintro ⟨-, w₂, new', -, made', names', taken, -⟩
      cases made.symm.trans made'
      obtain rfl := names.unique names'
      exact taken free
  · rintro ⟨-, no_overrun⟩
    by_contra taken
    exact no_overrun ⟨tried, w₁, new, disk, made, names, taken, moved⟩

/-- A rename is whole but for two cases: that folders are stranded which were made for its target, or that it
overruns what was there. In both the folder that the target names is missing. And whatever a rename
that fails leaves behind are folders on the way of its target. -/
theorem renameFile_whole_iff (tree : w.disk.IsTree) :
    (w.RenamesWhole source target ↔ ¬w.Strands source target ∧ ¬w.Overruns source target) ∧
    (w.Strands source target ∨ w.Overruns source target → w.LacksFolder target) ∧
    ∀ fault w', (renameFile source target).run.run w = (.error fault, w') → GrowsToward target w w' := by
  refine ⟨?_, fun either => either.elim Strands.lacksFolder Overruns.lacksFolder,
    fun _ _ => renameFile_error_growsToward⟩
  have course := renameFile_course w source target
  rw [RenamesWhole]
  generalize (renameFile source target).run.run w = outcome at course ⊢
  cases course with
  | refused fault untried =>
      exact iff_of_true rfl ⟨fun strands => untried strands.1, fun overruns => untried overruns.1⟩
  | blocked fault w₁ tried made =>
      have refuses : w.Refuses source target := by
        intro w₂ made'
        cases made.symm.trans made'
      have unchanged := way_unchanged_iff tried refuses
      rw [made] at unchanged
      exact unchanged
  | stuck fault w₁ tried made moved =>
      have refuses : w.Refuses source target := by
        intro w₂ made'
        cases made.symm.trans made'
        exact ⟨fault, moved⟩
      have unchanged := way_unchanged_iff tried refuses
      rw [made] at unchanged
      exact unchanged
  | done disk w₁ w' tried made moved left =>
      subst left
      have toward := makeWay_growsToward target w
      rw [made] at toward
      obtain ⟨⟨old, entry⟩, found⟩ := present_iff.1 tried.1
      obtain ⟨new, names, whole⟩ := relocated_of_move tree toward.grows found moved
      rw [← place_free_iff tried made names moved]
      constructor
      · rintro ⟨w₂, -, new', -, made', -, -, names', free, -⟩
        cases made.symm.trans made'
        obtain rfl := names.unique names'
        exact free
      · intro free
        exact ⟨w₁, old, new, entry, made, toward, found, names, free, whole free⟩

/-- Within the one folder there is nothing to make. -/
theorem renameFile_whole_beside :
    let w := World.sample [("a", "first")]
    w.disk.IsTree ∧ w.RenamesWhole (.ofString "/w/a") (.ofString "/w/b") := by
  intro w
  have tree : w.disk.IsTree := by decide +kernel
  obtain ⟨whole, lacking, -⟩ :
      (w.RenamesWhole (.ofString "/w/a") (.ofString "/w/b") ↔ _) ∧ _ := renameFile_whole_iff tree
  have given : ¬w.LacksFolder (.ofString "/w/b") := by
    rintro ⟨folder, parent, -, missing⟩
    have there : w.reaches (.ofString "/w") = true := by decide +kernel
    have at_folder : (Path.ofString "/w/b").parent? = some (.ofString "/w") := by decide +kernel
    cases at_folder.symm.trans parent
    cases there.symm.trans missing
  exact ⟨tree, whole.2 ⟨fun strands => given (lacking (.inl strands)),
    fun overruns => given (lacking (.inr overruns))⟩⟩

/-- A file is not moved to a name with a separator behind it, but the folder for that name stays. -/
theorem not_renamesWhole_slashed :
    let w := World.sample [("a", "first")]
    ((renameFile (.ofString "/w/a") (.ofString "/w/x/b/")).run.run w).1 = .error .notFolder ∧
      ¬w.RenamesWhole (.ofString "/w/a") (.ofString "/w/x/b/") := by
  intro w
  have failed : ((renameFile (.ofString "/w/a") (.ofString "/w/x/b/")).run.run w).1 = .error .notFolder := by
    decide +kernel
  have made : ((renameFile (.ofString "/w/a") (.ofString "/w/x/b/")).run.run w).2.disk.shape?
      (sampleFolder ++ [Text.bytesOf "x"]) = some .folder := by decide +kernel
  have missing : w.disk.shape? (sampleFolder ++ [Text.bytesOf "x"]) = none := by decide +kernel
  refine ⟨failed, fun whole => ?_⟩
  rw [RenamesWhole] at whole
  generalize (renameFile (.ofString "/w/a") (.ofString "/w/x/b/")).run.run w = outcome at failed made whole
  obtain ⟨result, w'⟩ := outcome
  cases failed
  have same : w'.disk = w.disk := whole
  rw [same, missing] at made
  cases made

end World

end Renumber
