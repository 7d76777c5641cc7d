import Renumber.Proofs.Disk.Way

/-!
# Plain disks

A plain disk is a tree without links on which every file has its data. Making folders keeps it
plain, and so does whatever logs need: a new file, new bytes for a file, and one file less. Other
files keep their names and their data, and a file keeps its mode. A file that has one name only
still has one name then.
-/

namespace Renumber.Disk

open Renumber.Time (Instant)

variable {d d' : Disk} {now : Instant} {cwd loc folder : Location} {name : Name} {p : Path} {id : Nat}

/-- The mode of a file. -/
def modeOf? (d : Disk) (id : Nat) : Option UInt32 :=
  (d.file? id).map fun data => data.stats.mode

theorem modeOf?_congr (same : d'.file? id = d.file? id) : d'.modeOf? id = d.modeOf? id := by
  rw [modeOf?, modeOf?, same]

theorem isSome_modeOf? (d : Disk) (id : Nat) : (d.modeOf? id).isSome = (d.file? id).isSome :=
  Option.isSome_map

/-! ## Writing to a file -/

@[simp] theorem get?_writeFile (d : Disk) (now : Instant) (id : Nat) (content : List UInt8)
    (loc : Location) : (d.writeFile now id content).get? loc = d.get? loc := by
  rw [writeFile]
  split <;> rfl

@[simp] theorem fresh_writeFile (d : Disk) (now : Instant) (id : Nat) (content : List UInt8) :
    (d.writeFile now id content).fresh = d.fresh := by
  rw [writeFile]
  split <;> rfl

theorem fileAt?_writeFile (d : Disk) (now : Instant) (id : Nat) (content : List UInt8)
    (loc : Location) : (d.writeFile now id content).fileAt? loc = d.fileAt? loc := by
  rw [fileAt?, fileAt?, get?_writeFile]

theorem file?_writeFile_of_ne (d : Disk) (now : Instant) {id other : Nat} (content : List UInt8)
    (ne : other ≠ id) : (d.writeFile now id content).file? other = d.file? other := by
  rw [writeFile]
  split
  · rw [file?_setFile, if_neg (Ne.symm ne)]
  · rfl

/-- The data of a file that was written to. -/
theorem file?_writeFile {data : FileData} (there : d.file? id = some data) (now : Instant)
    (content : List UInt8) :
    (d.writeFile now id content).file? id =
      some ⟨content, { data.stats with modified := now }⟩ := by
  rw [writeFile, there]
  simp only
  rw [file?_setFile, if_pos rfl]

@[simp] theorem modeOf?_writeFile (d : Disk) (now : Instant) (id other : Nat)
    (content : List UInt8) : (d.writeFile now id content).modeOf? other = d.modeOf? other := by
  by_cases same : other = id
  · subst same
    rw [modeOf?, modeOf?]
    cases there : d.file? other with
    | none => rw [writeFile, there, there]
    | some data =>
        rw [file?_writeFile there]
        rfl
  · rw [modeOf?, file?_writeFile_of_ne d now content same, modeOf?]

/-- Adding to a file is writing to it. -/
theorem appendFile_eq (d : Disk) (now : Instant) (id : Nat) (content : List UInt8) :
    ∃ all, d.appendFile now id content = d.writeFile now id all := by
  rw [appendFile]
  split
  · exact ⟨_, rfl⟩
  · next missing => exact ⟨[], by rw [writeFile, missing]⟩

/-! ## Plain disks -/

/-- A tree without links, where every file has its data. -/
structure Plain (d : Disk) : Prop where
  tree : d.IsTree
  unlinked : d.Unlinked
  known : ∀ loc id, d.fileAt? loc = some id → id < d.fresh ∧ (d.file? id).isSome = true

/-- An entry that a plain disk may have. -/
def isKnown (d : Disk) : Entry → Bool
  | .folder _ => true
  | .file id => decide (id < d.fresh) && (d.file? id).isSome
  | .link _ => false

theorem get?_of_mem_entries {d : Disk} {e : Location × Entry} (member : e ∈ d.entries.toList) :
    d.get? e.1 = some e.2 :=
  Std.TreeMap.mem_toList_iff_getElem?_eq_some.1 (show (e.1, e.2) ∈ _ from member)

theorem mem_entries {d : Disk} {e : Entry} (there : d.get? loc = some e) :
    (loc, e) ∈ d.entries.toList :=
  Std.TreeMap.mem_toList_iff_getElem?_eq_some.2 there

/-- Only the entries have to be looked at. -/
theorem plain_iff {d : Disk} :
    d.Plain ↔ d.IsTree ∧ ∀ e ∈ d.entries.toList, d.isKnown e.2 = true := by
  constructor
  · intro plain
    refine ⟨plain.tree, fun e member => ?_⟩
    have there := get?_of_mem_entries member
    cases kind : e.2 with
    | folder stats => rfl
    | file id =>
        rw [kind] at there
        have known := plain.known _ _ (fileAt?_eq_some.2 there)
        simp [isKnown, known]
    | link target =>
        rw [kind] at there
        exact absurd there (plain.unlinked _ _)
  · rintro ⟨tree, known⟩
    refine ⟨tree, fun loc target there => ?_, fun loc id there => ?_⟩
    · cases known _ (mem_entries there)
    · have := known _ (mem_entries (fileAt?_eq_some.1 there))
      simpa [isKnown] using this

instance (d : Disk) : Decidable d.Plain :=
  decidable_of_iff _ plain_iff.symm

theorem Plain.of_widens (plain : d.Plain) (widens : d.Widens d') : d'.Plain where
  tree := widens.tree plain.tree
  unlinked := widens.unlinked plain.unlinked
  known loc id there := by
    rw [widens.fileAt?] at there
    rw [widens.fresh, widens.file]
    exact plain.known loc id there

/-- A disk stays plain when the data of files change, as long as they are there. -/
theorem Plain.of_entries (plain : d.Plain) (same : ∀ loc, d'.get? loc = d.get? loc)
    (fresh : d'.fresh = d.fresh) (modes : ∀ id, d'.modeOf? id = d.modeOf? id) : d'.Plain := by
  have files : ∀ loc, d'.fileAt? loc = d.fileAt? loc := fun loc => by
    rw [fileAt?, fileAt?, same]
  refine ⟨plain.tree.of_sameShape fun loc => ?_, fun loc target => ?_, fun loc id there => ?_⟩
  · rw [shape?, shape?, same]
  · rw [same]
    exact plain.unlinked loc target
  · rw [files] at there
    rw [fresh, ← isSome_modeOf?, modes, isSome_modeOf?]
    exact plain.known loc id there

/-! ## New files and removed files -/

theorem shape?_addFile (d : Disk) (now : Instant) (folder : Location) (name : Name)
    (loc : Location) :
    (d.addFile now folder name).1.shape? loc =
      if folder ++ [name] = loc then some (.file d.fresh) else d.shape? loc := by
  rw [addFile]
  simp only
  rw [shape?_stampFolder, shape?_put]
  rfl

theorem file?_addFile (d : Disk) (now : Instant) (folder : Location) (name : Name) (id : Nat) :
    (d.addFile now folder name).1.file? id =
      if d.fresh = id then some ⟨[], freshStats fileMode now⟩ else d.file? id := by
  rw [addFile]
  simp only
  rw [file?_stampFolder, file?_put, file?_setFile]
  rfl

theorem fileAt?_addFile (d : Disk) (now : Instant) (folder : Location) (name : Name)
    (loc : Location) :
    (d.addFile now folder name).1.fileAt? loc =
      if folder ++ [name] = loc then some d.fresh else d.fileAt? loc := by
  refine Option.ext fun id => ?_
  rw [fileAt?_eq_shape, shape?_addFile]
  split
  · simp
  · rw [fileAt?_eq_shape]

/-- A new file in a folder keeps a disk plain: its number was not in use. -/
theorem Plain.addFile (plain : d.Plain) (now : Instant) {folder : Location} {name : Name}
    (here : d.shape? folder = some .folder) (free : d.get? (folder ++ [name]) = none) :
    (d.addFile now folder name).1.Plain := by
  have fresh : (d.addFile now folder name).1.fresh = d.fresh + 1 := by
    rw [Disk.addFile]
    simp only
    rw [fresh_stampFolder]
    rfl
  have none_there : d.shape? (folder ++ [name]) = none := shape?_eq_none.2 free
  refine ⟨⟨?_, fun loc inner there => ?_⟩, fun loc target there => ?_, fun loc id there => ?_⟩
  · rw [shape?_addFile, if_neg (by simp)]
    exact plain.tree.root
  · have parent : d.shape? loc = some .folder := by
      rw [shape?_addFile] at there
      split at there
      · next same =>
        obtain ⟨rfl, -⟩ := List.append_inj' same rfl
        exact here
      · exact plain.tree.parent loc inner there
    rw [shape?_addFile, if_neg]
    · exact parent
    · intro same
      rw [← same, none_there] at parent
      cases parent
  · have link := shape?_eq_link.2 there
    rw [shape?_addFile] at link
    split at link
    · cases link
    · exact plain.unlinked loc target (shape?_eq_link.1 link)
  · rw [fileAt?_addFile] at there
    rw [fresh, file?_addFile]
    split at there
    · cases there
      exact ⟨Nat.lt_succ_self _, by rw [if_pos rfl]; rfl⟩
    · obtain ⟨below, data⟩ := plain.known loc id there
      rw [if_neg (by omega)]
      exact ⟨by omega, data⟩

theorem shape?_removed (d : Disk) (now : Instant) (folder : Location) (name : Name)
    (loc : Location) :
    ((d.drop (folder ++ [name])).stampFolder now folder).shape? loc =
      if folder ++ [name] = loc then none else d.shape? loc := by
  rw [shape?_stampFolder, shape?_drop]

theorem fileAt?_of_removed {other : Nat}
    (standing : ((d.drop (folder ++ [name])).stampFolder now folder).fileAt? loc = some other) :
    d.fileAt? loc = some other := by
  rw [fileAt?_eq_shape, shape?_removed] at standing
  split at standing
  · cases standing
  · exact fileAt?_eq_shape.2 standing

/-- A disk stays plain without one of its files. -/
theorem Plain.removed (plain : d.Plain) (now : Instant) {folder : Location} {name : Name} {id : Nat}
    (there : d.fileAt? (folder ++ [name]) = some id) :
    ((d.drop (folder ++ [name])).stampFolder now folder).Plain := by
  refine ⟨⟨?_, fun loc inner standing => ?_⟩, fun loc target standing => ?_, fun loc other standing => ?_⟩
  · rw [shape?_removed, if_neg (by simp)]
    exact plain.tree.root
  · have parent : d.shape? loc = some .folder := by
      rw [shape?_removed] at standing
      split at standing
      · exact absurd rfl standing
      · exact plain.tree.parent loc inner standing
    rw [shape?_removed, if_neg]
    · exact parent
    · intro same
      rw [← same, fileAt?_eq_shape.1 there] at parent
      cases parent
  · have link := shape?_eq_link.2 standing
    rw [shape?_removed] at link
    split at link
    · cases link
    · exact plain.unlinked loc target (shape?_eq_link.1 link)
  · rw [fresh_stampFolder, fresh_drop, file?_stampFolder, file?_drop]
    exact plain.known loc other (fileAt?_of_removed standing)

/-! ## Files with one name -/

/-- The file at a location, if there is one, stands nowhere else. -/
def Lone (d : Disk) (loc : Location) : Prop :=
  ∀ other id, d.fileAt? loc = some id → d.fileAt? other = some id → other = loc

/-- Only the entries have to be looked at. -/
theorem lone_iff {d : Disk} : d.Lone loc ↔
    ∀ id ∈ d.fileAt? loc, ∀ e ∈ d.entries.toList, d.fileAt? e.1 = some id → e.1 = loc := by
  constructor
  · exact fun lone id there e _ stands => lone e.1 id there stands
  · exact fun lone other id there stands =>
      lone id there (other, .file id) (mem_entries (fileAt?_eq_some.1 stands)) stands

instance (d : Disk) (loc : Location) : Decidable (d.Lone loc) :=
  decidable_of_iff _ lone_iff.symm

theorem Lone.of_fileAt? (lone : d.Lone loc) (same : ∀ loc, d'.fileAt? loc = d.fileAt? loc) :
    d'.Lone loc := by
  intro other id there stands
  rw [same] at there stands
  exact lone other id there stands

/-- A new file has one name, and takes none from another one. -/
theorem Lone.addFile (lone : d.Lone loc) (plain : d.Plain) (now : Instant) (folder : Location)
    (name : Name) : (d.addFile now folder name).1.Lone loc := by
  have not_fresh : ∀ loc, d.fileAt? loc ≠ some d.fresh := fun loc there =>
    absurd (plain.known loc _ there).1 (Nat.lt_irrefl _)
  intro other id there stands
  rw [fileAt?_addFile] at there stands
  split at there
  · next here =>
    cases there
    split at stands
    · next same => rw [← same, here]
    · exact absurd stands (not_fresh other)
  · split at stands
    · cases stands
      exact absurd there (not_fresh loc)
    · exact lone other id there stands

theorem Lone.removed (lone : d.Lone loc) (now : Instant) (folder : Location) (name : Name) :
    ((d.drop (folder ++ [name])).stampFolder now folder).Lone loc :=
  fun other id there stands =>
    lone other id (fileAt?_of_removed there) (fileAt?_of_removed stands)

end Renumber.Disk
