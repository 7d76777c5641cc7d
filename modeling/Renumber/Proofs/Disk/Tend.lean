import Renumber.Proofs.Disk.Plain
import Renumber.Proofs.Moves

/-!
# Tending logs on a plain disk

What is done for logs concerns a few locations only: files come and go at the locations of
the logs, and folders are made on the ways to them. All other files stay where they are,
with their data, and no file loses a permission that new files have.
-/

namespace Renumber.Disk

open Renumber.Time (Instant)

variable {d d' : Disk} {now : Instant} {cwd loc folder : Location} {p : Path} {name : Name}
  {id : Nat} {bit : UInt32} {logs ways : Set Location}

/-! ## Permissions -/

/-- The file at a location, if there is one, may be used in some way. -/
def Allows (d : Disk) (bit : UInt32) (loc : Location) : Prop :=
  ∀ id, d.fileAt? loc = some id → d.checkAccess id bit = .ok ()

theorem checkAccess_eq (d : Disk) (id : Nat) (bit : UInt32) :
    d.checkAccess id bit = match d.modeOf? id with
      | some mode => if mode &&& bit = 0 then .error .denied else .ok ()
      | none => .ok () := by
  rw [checkAccess, modeOf?]
  cases d.file? id <;> rfl

theorem checkAccess_congr (same : d'.modeOf? id = d.modeOf? id) :
    d'.checkAccess id bit = d.checkAccess id bit := by
  rw [checkAccess_eq, checkAccess_eq, same]

/-! ## Changes for logs -/

/-- The second disk is the first after something was done for logs. -/
structure Tends (logs ways : Set Location) (d d' : Disk) : Prop where
  plain : d'.Plain
  keeps : d.Keeps d'
  folder : ∀ loc, loc ∉ ways → d'.shape? loc = some .folder → d.shape? loc = some .folder
  files : FileMap.AgreeOff logs d.fileAt? d'.fileAt?
  data : ∀ loc id, loc ∉ logs → d.fileAt? loc = some id → d'.file? id = d.file? id
  allows : ∀ bit, fileMode &&& bit ≠ 0 → ∀ loc, d.Allows bit loc → d'.Allows bit loc
  lone : ∀ loc, d.Lone loc → d'.Lone loc

theorem Tends.refl (logs ways : Set Location) (plain : d.Plain) : Tends logs ways d d where
  plain := plain
  keeps := .refl d
  folder _ _ there := there
  files _ _ := rfl
  data _ _ _ _ := rfl
  allows _ _ _ allowed := allowed
  lone _ lone := lone

theorem Tends.trans {a b c : Disk} (first : Tends logs ways a b) (second : Tends logs ways b c) :
    Tends logs ways a c where
  plain := second.plain
  keeps := first.keeps.trans second.keeps
  folder loc off there := first.folder loc off (second.folder loc off there)
  files := first.files.trans second.files
  data loc id off there := by
    have still : b.fileAt? loc = some id := (first.files loc off).trans there
    exact (second.data loc id off still).trans (first.data loc id off there)
  allows bit usual loc allowed := second.allows bit usual loc (first.allows bit usual loc allowed)
  lone loc lone := second.lone loc (first.lone loc lone)

theorem Tends.mono {logs' ways' : Set Location} (tends : Tends logs ways d d')
    (more_logs : ∀ loc ∈ logs, loc ∈ logs') (more_ways : ∀ loc ∈ ways, loc ∈ ways') :
    Tends logs' ways' d d' where
  plain := tends.plain
  keeps := tends.keeps
  folder loc off := tends.folder loc fun on => off (more_ways loc on)
  files loc off := tends.files loc fun on => off (more_logs loc on)
  data loc id off := tends.data loc id fun on => off (more_logs loc on)
  allows := tends.allows
  lone := tends.lone

/-- Folders may be made on the ways. -/
theorem Tends.of_widens (plain : d.Plain) (widens : d.Widens d')
    (new : ∀ loc, loc ∉ ways → d'.shape? loc = d.shape? loc) : Tends ∅ ways d d' where
  plain := plain.of_widens widens
  keeps := widens.keeps
  folder loc off there := new loc off ▸ there
  files loc _ := widens.fileAt? loc
  data _ id _ _ := widens.file id
  allows bit _ loc allowed id there := by
    rw [widens.fileAt?] at there
    rw [checkAccess_congr (modeOf?_congr (widens.file id))]
    exact allowed id there
  lone _ lone := lone.of_fileAt? widens.fileAt?

theorem Tends.addFile (plain : d.Plain) (now : Instant) (here : d.shape? folder = some .folder)
    (free : d.get? (folder ++ [name]) = none) :
    Tends {folder ++ [name]} ∅ d (d.addFile now folder name).1 := by
  have none_there : d.shape? (folder ++ [name]) = none := shape?_eq_none.2 free
  have old_number : ∀ {loc id}, d.fileAt? loc = some id → d.fresh ≠ id := by
    intro loc id there same
    have := (plain.known loc id there).1
    omega
  refine ⟨plain.addFile now here free, ⟨fun loc there => ?_, fun loc target there => ?_⟩,
    fun loc _ there => ?_, fun loc off => ?_, fun loc id _ there => ?_,
    fun bit usual loc allowed id there => ?_, fun loc lone => lone.addFile plain now folder name⟩
  · rw [shape?_addFile, if_neg]
    · exact there
    · rintro rfl
      rw [none_there] at there
      cases there
  · exact absurd (shape?_eq_link.1 there) (plain.unlinked _ _)
  · rw [shape?_addFile] at there
    split at there
    · cases there
    · exact there
  · rw [fileAt?_addFile, if_neg]
    exact Ne.symm off
  · rw [file?_addFile, if_neg (old_number there)]
  · rw [fileAt?_addFile] at there
    split at there
    · cases there
      rw [checkAccess_eq, modeOf?, file?_addFile, if_pos rfl]
      exact if_neg usual
    · have data := file?_addFile d now folder name id
      rw [if_neg (old_number there)] at data
      rw [checkAccess_congr (modeOf?_congr data)]
      exact allowed id there

theorem Tends.writeFile (plain : d.Plain) (lone : d.Lone loc) (there : d.fileAt? loc = some id)
    (now : Instant) (content : List UInt8) : Tends {loc} ∅ d (d.writeFile now id content) := by
  have same : d.SameShape (d.writeFile now id content) := fun loc => by
    rw [Disk.shape?, Disk.shape?, get?_writeFile]
  refine ⟨plain.of_entries (fun loc => get?_writeFile ..) (fresh_writeFile ..)
    (fun id => modeOf?_writeFile ..), same.keeps, fun loc _ there => same loc ▸ there,
    fun loc _ => fileAt?_writeFile .., fun loc' id' off there' => ?_,
    fun bit usual loc allowed id' there' => ?_,
    fun loc lone => lone.of_fileAt? fun loc => fileAt?_writeFile ..⟩
  · refine file?_writeFile_of_ne d now content fun equal => off ?_
    subst equal
    exact lone _ _ there there'
  · rw [fileAt?_writeFile] at there'
    rw [checkAccess_congr (modeOf?_writeFile ..)]
    exact allowed id' there'

theorem Tends.removed (plain : d.Plain) (now : Instant) (there : d.fileAt? (folder ++ [name]) = some id) :
    Tends {folder ++ [name]} ∅ d ((d.drop (folder ++ [name])).stampFolder now folder) := by
  have file_there := fileAt?_eq_shape.1 there
  have files : ∀ loc, ((d.drop (folder ++ [name])).stampFolder now folder).fileAt? loc =
      if folder ++ [name] = loc then none else d.fileAt? loc := by
    intro loc
    refine Option.ext fun id => ?_
    rw [fileAt?_eq_shape, shape?_removed]
    split
    · simp
    · rw [fileAt?_eq_shape]
  refine ⟨plain.removed now there, ⟨fun loc standing => ?_, fun loc target standing => ?_⟩,
    fun loc _ standing => ?_, fun loc off => ?_, fun loc id _ _ => ?_,
    fun bit usual loc allowed id standing => ?_, fun loc lone => lone.removed now folder name⟩
  · rw [shape?_removed, if_neg]
    · exact standing
    · rintro rfl
      rw [file_there] at standing
      cases standing
  · exact absurd (shape?_eq_link.1 standing) (plain.unlinked _ _)
  · rw [shape?_removed] at standing
    split at standing
    · cases standing
    · exact standing
  · rw [files, if_neg]
    exact Ne.symm off
  · rw [file?_stampFolder, file?_drop]
  · rw [files] at standing
    split at standing
    · cases standing
    · have data : ((d.drop (folder ++ [name])).stampFolder now folder).file? id = d.file? id := by
        rw [file?_stampFolder, file?_drop]
      rw [checkAccess_congr (modeOf?_congr data)]
      exact allowed id standing

/-! ## Sites and slots -/

/-- A site stays one as long as folders stay and no folder is made there. -/
theorem Site.of_keeps (site : d.Site cwd p loc) (keeps : d.Keeps d') (unlinked : d'.Unlinked)
    (folder : d'.shape? loc = some .folder → d.shape? loc = some .folder) : d'.Site cwd p loc where
  place := place?_keeps keeps site.place
  leaf e there := by
    cases e with
    | file id => exact ⟨id, rfl⟩
    | folder stats =>
        obtain ⟨stats', before⟩ := shape?_eq_folder.1 (folder (shape?_eq_folder.2 ⟨stats, there⟩))
        obtain ⟨id, same⟩ := site.leaf _ before
        cases same
    | link target => exact absurd there (unlinked _ _)

theorem Site.tends (site : d.Site cwd p loc) (tends : Tends logs ways d d') (off : loc ∉ ways) :
    d'.Site cwd p loc :=
  site.of_keeps tends.keeps tends.plain.unlinked (tends.folder loc off)

/-- A site whose file, if there is one, can be written, and has no other name. -/
structure Slot (d : Disk) (cwd : Location) (p : Path) (loc : Location) : Prop
    extends Site d cwd p loc where
  writable : d.Allows ownerWrite loc
  lone : d.Lone loc

theorem Slot.tends (slot : d.Slot cwd p loc) (tends : Tends logs ways d d') (off : loc ∉ ways) :
    d'.Slot cwd p loc where
  toSite := slot.toSite.tends tends off
  writable := tends.allows ownerWrite (by decide) loc slot.writable
  lone := tends.lone loc slot.lone

/-- Where nothing stands at the place of a path there is a slot. -/
theorem slot_of_missing (place : d.place? cwd p = some loc) (free : d.get? loc = none) :
    d.Slot cwd p loc := by
  have no_file : d.fileAt? loc = none := by rw [fileAt?, free]
  refine ⟨⟨place, fun e there => ?_⟩, fun id there => ?_, fun other id there => ?_⟩
  · cases free.symm.trans there
  · cases no_file.symm.trans there
  · cases no_file.symm.trans there

theorem reaches_of_slot (slot : d.Slot cwd p loc) : d.reaches cwd p = (d.fileAt? loc).isSome := by
  have place := slot.place
  obtain ⟨folder, name, last, short, rfl⟩ := place?_eq_some.1 place
  rw [reaches, findEntry]
  cases there : d.fileAt? (folder ++ [name]) with
  | none =>
      have free : d.get? (folder ++ [name]) = none := by rw [slot.get?_eq, there]; rfl
      rw [find_vacant last short free]
      rfl
  | some id =>
      rw [find_of_place_file place (fileAt?_eq_some.1 there)]
      rfl

/-- The file that a path leads to, once one stands at its place. -/
theorem findEntry_of_fileAt? (place : d.place? cwd p = some loc) (there : d.fileAt? loc = some id)
    (follow : Bool) : d.findEntry cwd follow p = .ok (loc, .file id) := by
  rw [findEntry, find_of_place_file place (fileAt?_eq_some.1 there)]
  rfl

/-- A disk where a file at a location was opened, which may be a new one. -/
inductive Opens (d : Disk) (now : Instant) (loc : Location) : Disk → Nat → Prop
  | old {id : Nat} (there : d.fileAt? loc = some id) : Opens d now loc d id
  | new {folder : Location} {name : Name} (same : loc = folder ++ [name])
      (here : d.shape? folder = some .folder) (free : d.get? loc = none) :
      Opens d now loc (d.addFile now folder name).1 d.fresh

theorem Opens.there (opens : Opens d now loc d' id) : d'.fileAt? loc = some id := by
  cases opens with
  | old there => exact there
  | new same here free =>
      subst same
      rw [fileAt?_addFile, if_pos rfl]

theorem Opens.tends (opens : Opens d now loc d' id) (plain : d.Plain) : Tends {loc} ∅ d d' := by
  cases opens with
  | old there => exact .refl _ _ plain
  | new same here free =>
      subst same
      exact .addFile plain now here free

/-- A file is opened at a slot only, unless it has another name. -/
theorem openFile_ok (plain : d.Plain) (working : d.shape? cwd = some .folder)
    (lone : d.Lone (addressOf cwd p)) (opened : d.openFile now cwd p = .ok (d', id)) :
    ∃ loc, d.Slot cwd p loc ∧ Opens d now loc d' id := by
  rw [openFile] at opened
  cases found : d.find cwd true p with
  | error fault =>
      rw [found] at opened
      cases opened
  | ok place =>
      rw [found] at opened
      have lone_at : ∀ {loc}, d.place? cwd p = some loc → d.Lone loc := fun place =>
        addressOf_of_place plain.unlinked place ▸ lone
      have not_folder : ∀ loc stats, place ≠ .taken loc (.folder stats) := by
        rintro loc stats rfl
        cases opened
      obtain ⟨folder, name, slashed, last, short, ⟨id', rfl, rfl⟩ | ⟨rfl, free⟩⟩ :=
        exists_findLast plain.tree plain.unlinked working found not_folder
      · have place : d.place? cwd p = some (folder ++ [name]) :=
          place?_eq_some.2 ⟨folder, name, last, short, rfl⟩
        have entry : d.findEntry cwd true p = .ok (folder ++ [name], .file id') := by
          rw [findEntry, found]
          rfl
        have there : d.get? (folder ++ [name]) = some (.file id') := get?_of_findEntry entry
        cases access : d.checkAccess id' ownerWrite with
        | error fault =>
            simp only [bind, Except.bind, access] at opened
            cases opened
        | ok _ =>
            simp only [bind, Except.bind, access] at opened
            cases opened
            refine ⟨_, ⟨⟨place, fun e stands => ?_⟩, fun other stands => ?_, lone_at place⟩,
              .old (fileAt?_eq_some.2 there)⟩
            · rw [there] at stands
              exact ⟨_, (Option.some.inj stands).symm⟩
            · rw [fileAt?_eq_some, there] at stands
              cases stands
              exact access
      · cases slashed with
        | true => cases opened
        | false =>
            cases opened
            have place : d.place? cwd p = some (folder ++ [name]) :=
              place?_eq_some.2 ⟨folder, name, last, short, rfl⟩
            refine ⟨_, ⟨⟨place, fun e stands => ?_⟩, fun other stands => ?_, lone_at place⟩,
              .new rfl (folder_of_findLast last) free⟩
            · rw [free] at stands
              cases stands
            · rw [fileAt?_eq_some, free] at stands
              cases stands

/-- At a slot a file can be opened. -/
theorem openFile_of_slot (slot : d.Slot cwd p loc) (now : Instant) :
    ∃ d' id, d.openFile now cwd p = .ok (d', id) ∧ Opens d now loc d' id := by
  obtain ⟨folder, name, last, short, rfl⟩ := place?_eq_some.1 slot.place
  cases there : d.fileAt? (folder ++ [name]) with
  | none =>
      have free : d.get? (folder ++ [name]) = none := by rw [slot.get?_eq, there]; rfl
      refine ⟨_, _, ?_, .new rfl (folder_of_findLast last) free⟩
      rw [openFile, find_vacant last short free]
      rfl
  | some id =>
      refine ⟨d, id, ?_, .old there⟩
      rw [openFile, find_of_place_file slot.place (fileAt?_eq_some.1 there)]
      simp only [bind, Except.bind, slot.writable id there]
      rfl

/-- The file at a place can be removed. -/
theorem removeFile_of_place (place : d.place? cwd p = some loc) (there : d.fileAt? loc = some id)
    (now : Instant) :
    ∃ folder name, loc = folder ++ [name] ∧ d.removeFile now cwd p =
      .ok ((d.drop (folder ++ [name])).stampFolder now folder) := by
  obtain ⟨folder, name, last, short, rfl⟩ := place?_eq_some.1 place
  refine ⟨folder, name, rfl, ?_⟩
  rw [removeFile, last]
  simp only [bind, Except.bind, fileAt?_eq_some.1 there]
  rfl

/-- A plain disk has only files to remove. -/
theorem removeFile_ok (plain : d.Plain) (removed : d.removeFile now cwd p = .ok d')
    (place : d.place? cwd p = some loc) : ∃ id, d.fileAt? loc = some id := by
  obtain ⟨folder, name, last, short, rfl⟩ := place?_eq_some.1 place
  rw [removeFile, last] at removed
  simp only [bind, Except.bind] at removed
  split at removed
  · cases removed
  · cases removed
  · next e not_folder there =>
    cases e with
    | folder stats => exact absurd rfl (not_folder stats)
    | file id => exact ⟨id, fileAt?_eq_some.2 there⟩
    | link target => exact absurd there (plain.unlinked _ _)

end Renumber.Disk
