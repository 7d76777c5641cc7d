import Renumber.Proofs.Disk.Move

/-!
# Disks as trees

On a disk that is a tree every entry stands in a folder. Making folders and moving
entries keep it one: a new folder is put into a folder, and an entry is never carried
below itself. Only on a tree does the check that a folder is empty tell that nothing
will be replaced below it.
-/

namespace Renumber.Disk

open Renumber.Time (Instant)

variable {d d' : Disk} {now : Instant} {cwd : Location}

/-- The root is a folder, and so is whatever something stands in. -/
structure IsTree (d : Disk) : Prop where
  root : d.shape? [] = some .folder
  parent : ∀ loc name, d.shape? (loc ++ [name]) ≠ none → d.shape? loc = some .folder

/-- Only the locations of entries have to be looked at. -/
theorem isTree_iff {d : Disk} : d.IsTree ↔ d.shape? [] = some .folder ∧
    ∀ e ∈ d.entries.toList, e.1 = [] ∨ d.shape? e.1.dropLast = some .folder := by
  constructor
  · refine fun tree => ⟨tree.root, fun e member => ?_⟩
    rcases List.eq_nil_or_concat e.1 with nil | ⟨loc, name, at_e⟩
    · exact .inl nil
    · right
      rw [List.concat_eq_append] at at_e
      have there := Std.TreeMap.mem_toList_iff_getElem?_eq_some.1 (show (e.1, e.2) ∈ _ from member)
      rw [at_e, List.dropLast_concat]
      exact tree.parent loc name (by simp [shape?, get?, ← at_e, there])
  · rintro ⟨root, parents⟩
    refine ⟨root, fun loc name there => ?_⟩
    obtain ⟨e, standing⟩ := Option.ne_none_iff_exists'.1 (mt shape?_eq_none.2 there)
    have member := Std.TreeMap.mem_toList_iff_getElem?_eq_some.2 standing
    simpa using parents _ member

instance (d : Disk) : Decidable d.IsTree :=
  decidable_of_iff _ isTree_iff.symm

/-- Whatever something stands below is a folder. -/
theorem IsTree.folder_above (tree : d.IsTree) {above loc : Location}
    (there : d.shape? loc ≠ none) (below : above <+: loc) (apart : above ≠ loc) :
    d.shape? above = some .folder := by
  obtain ⟨rest, rfl⟩ := below
  induction rest using List.reverseRecOn with
  | nil => simp at apart
  | append_singleton rest name ih =>
      rw [← List.append_assoc] at there
      have parent := tree.parent _ _ there
      cases rest with
      | nil => simpa using parent
      | cons next rest => exact ih (by simp [parent]) (by simp)

/-- Above a folder there is a folder, or it is the root. -/
theorem IsTree.above (tree : d.IsTree) {loc : Location} (here : d.shape? loc = some .folder) :
    d.shape? loc.dropLast = some .folder := by
  obtain rfl | ⟨up, name, rfl⟩ := List.eq_nil_or_concat loc
  · exact here
  · rw [List.concat_eq_append] at here ⊢
    rw [List.dropLast_concat]
    exact tree.parent up name (by simp [here])

/-- On a tree segments that are passed lead from folder to folder. -/
theorem Leads.folder {loc end_ : Location} {segs : List (List UInt8)} (leads : d.Leads loc segs end_)
    (tree : d.IsTree) (here : d.shape? loc = some .folder) : d.shape? end_ = some .folder := by
  induction leads with
  | nil => exact here
  | skip _ _ ih => exact ih here
  | up _ ih => exact ih (tree.above here)
  | enter _ _ there _ ih => exact ih (shape?_eq_folder.2 ⟨_, there⟩)

/-- Nothing stands below what is no folder. -/
theorem IsTree.none_below (tree : d.IsTree) {above loc : Location}
    (leaf : d.shape? above ≠ some .folder) (below : above <+: loc) (apart : above ≠ loc) :
    d.shape? loc = none := by
  by_contra there
  exact leaf (tree.folder_above there below apart)

theorem IsTree.of_sameShape (tree : d.IsTree) (same : d.SameShape d') : d'.IsTree where
  root := same [] ▸ tree.root
  parent loc name there := by
    rw [← same]
    rw [← same] at there
    exact tree.parent loc name there

/-! ## Making folders -/

/-- One disk is another with more folders. -/
structure Widens (d d' : Disk) : Prop where
  shape : ∀ loc, d'.shape? loc = d.shape? loc ∨
    d.shape? loc = none ∧ d'.shape? loc = some .folder
  file : ∀ id, d'.file? id = d.file? id
  fresh : d'.fresh = d.fresh
  tree : d.IsTree → d'.IsTree

theorem Widens.refl (d : Disk) : d.Widens d where
  shape _ := .inl rfl
  file _ := rfl
  fresh := rfl
  tree := id

theorem Widens.trans {a b c : Disk} (first : a.Widens b) (second : b.Widens c) : a.Widens c where
  shape loc := by
    rcases first.shape loc with same | ⟨before, after⟩
    · rw [← same]
      exact second.shape loc
    · rcases second.shape loc with same' | ⟨before', -⟩
      · exact .inr ⟨before, same'.trans after⟩
      · rw [after] at before'
        cases before'
  file id := (second.file id).trans (first.file id)
  fresh := second.fresh.trans first.fresh
  tree := second.tree ∘ first.tree

theorem Widens.keeps (widens : d.Widens d') : d.Keeps d' where
  folder loc there := by
    rcases widens.shape loc with same | ⟨-, after⟩
    · exact same.trans there
    · exact after
  link loc target there := by
    rcases widens.shape loc with same | ⟨before, -⟩
    · exact same.trans there
    · rw [there] at before
      cases before

/-- Files stand where they stood. -/
theorem Widens.fileAt? (widens : d.Widens d') (loc : Location) : d'.fileAt? loc = d.fileAt? loc := by
  refine Option.ext fun id => ?_
  rw [fileAt?_eq_shape, fileAt?_eq_shape]
  rcases widens.shape loc with same | ⟨before, after⟩
  · rw [same]
  · simp [before, after]

/-- What a folder that is made looks like: it is new, and stands in a folder. -/
theorem makeFolder_ok {p : Path} (made : d.makeFolder now cwd p = .ok d') :
    ∃ folder name slashed, d.findLast cwd p = .ok ⟨folder, some name, slashed⟩ ∧
      name.length ≤ maxName ∧ d.get? (folder ++ [name]) = none ∧
      d' = (d.put (folder ++ [name]) (.folder (freshStats folderMode now))).stampFolder now
        folder := by
  rw [makeFolder] at made
  simp only [bind, Except.bind, throw, throwThe, MonadExceptOf.throw, pure, Except.pure] at made
  split at made
  · cases made
  next last found =>
  obtain ⟨folder, name?, slashed⟩ := last
  cases name? with
  | none => cases made
  | some name =>
      simp only at made
      split at made
      · cases made
      next short =>
      split at made
      · cases made
      next vacant =>
      cases made
      exact ⟨folder, name, slashed, found, by omega, vacant, rfl⟩

theorem shape?_madeFolder (d : Disk) (now : Instant) (folder : Location) (name : Name)
    (loc : Location) :
    ((d.put (folder ++ [name]) (.folder (freshStats folderMode now))).stampFolder now folder).shape?
      loc = if folder ++ [name] = loc then some .folder else d.shape? loc := by
  rw [shape?_stampFolder, shape?_put]
  rfl

theorem makeFolder_widens {p : Path} (made : d.makeFolder now cwd p = .ok d') : d.Widens d' := by
  obtain ⟨folder, name, slashed, last, -, vacant, rfl⟩ := makeFolder_ok made
  have shape := shape?_madeFolder d now folder name
  have free : d.shape? (folder ++ [name]) = none := shape?_eq_none.2 vacant
  refine ⟨fun loc => ?_, fun id => by simp, by simp, fun tree => ⟨?_, fun loc inner there => ?_⟩⟩
  · rw [shape]
    split
    · next same => exact .inr ⟨same ▸ free, rfl⟩
    · exact .inl rfl
  · rw [shape, if_neg (by simp)]
    exact tree.root
  · rw [shape] at there ⊢
    by_cases same : folder ++ [name] = loc
    · rw [if_pos same]
    · rw [if_neg same]
      by_cases new : folder ++ [name] = loc ++ [inner]
      · obtain ⟨rfl, -⟩ := List.append_inj' new rfl
        exact folder_of_findLast last
      · rw [if_neg new] at there
        exact tree.parent loc inner there

/-! ## Carrying entries -/

/-- A disk stays a tree when an entry without anything below it is carried into a folder,
to a location with nothing below it either. -/
theorem IsTree.carried_leaf (tree : d.IsTree) {oldFolder newFolder : Location}
    {oldName newName : Name} {entry : Entry}
    (there : d.get? (oldFolder ++ [oldName]) = some entry) (leaf : entry.shape ≠ .folder)
    (apart : oldFolder ++ [oldName] ≠ newFolder ++ [newName])
    (folder : d.shape? newFolder = some .folder)
    (replaced : d.shape? (newFolder ++ [newName]) ≠ some .folder) :
    (d.carried now oldFolder oldName newFolder newName).IsTree := by
  have shape := shape?_carried_leaf now there leaf apart
  have old_leaf : d.shape? (oldFolder ++ [oldName]) ≠ some .folder := by
    rw [shape?, there]
    simpa using leaf
  refine ⟨?_, fun loc inner standing => ?_⟩
  · rw [shape, if_neg (by simp), if_neg (by simp)]
    exact tree.root
  · have parent : d.shape? loc = some .folder := by
      rw [shape] at standing
      by_cases at_new : newFolder ++ [newName] = loc ++ [inner]
      · obtain ⟨rfl, -⟩ := List.append_inj' at_new rfl
        exact folder
      · rw [if_neg at_new] at standing
        by_cases at_old : oldFolder ++ [oldName] = loc ++ [inner]
        · rw [if_pos at_old] at standing
          exact absurd rfl standing
        · rw [if_neg at_old] at standing
          exact tree.parent loc inner standing
    rw [shape, if_neg, if_neg]
    · exact parent
    · intro same
      exact old_leaf (same ▸ parent)
    · intro same
      exact replaced (same ▸ parent)

end Renumber.Disk
