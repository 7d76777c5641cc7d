import Mathlib.Data.Set.Card
import Renumber.Proofs.Disk.Tree

/-!
# Moves that keep files

A move carries an entry with all that lies below it. When no other file stood at the
target, every file has one location afterwards as before, and all files are still there.
When one did, there is a file less. This holds for any source and target on a disk that
is a tree, and the disk stays one.
-/

namespace Renumber.Disk

open Renumber.Time (Instant)

variable {d d' : Disk} {now : Instant} {cwd : Location} {source target : Path}

/-- The locations of files. -/
def filePlaces (d : Disk) : Set Location :=
  {loc | d.fileAt? loc ≠ none}

theorem mem_filePlaces {loc : Location} : loc ∈ d.filePlaces ↔ ∃ id, d.fileAt? loc = some id :=
  Option.ne_none_iff_exists'

theorem finite_filePlaces (d : Disk) : d.filePlaces.Finite := by
  refine (List.finite_toSet d.entries.keys).subset fun loc there => ?_
  obtain ⟨id, at_loc⟩ := mem_filePlaces.1 there
  have found : d.entries[loc]? = some (.file id) := fileAt?_eq_some.1 at_loc
  exact Std.TreeMap.mem_keys.2 (Std.TreeMap.mem_iff_isSome_getElem?.2 (by rw [found]; rfl))

/-- Every name of a file on one disk is a name of that file on the other, at one location
each, and there are no more names. The data of files is the same, apart from logs. -/
structure FilesKept (logs : Set Nat) (d d' : Disk) : Prop where
  moved : ∃ f : Location → Location, Set.BijOn f d.filePlaces d'.filePlaces ∧
    ∀ loc ∈ d.filePlaces, d'.fileAt? (f loc) = d.fileAt? loc
  data : ∀ id, id ∉ logs → d'.file? id = d.file? id

variable {logs : Set Nat}

theorem FilesKept.of_fileAt? (same : ∀ loc, d'.fileAt? loc = d.fileAt? loc)
    (data : ∀ id, id ∉ logs → d'.file? id = d.file? id) : FilesKept logs d d' := by
  have places : d'.filePlaces = d.filePlaces := Set.ext fun loc => by simp [filePlaces, same]
  exact ⟨⟨id, places ▸ Set.bijOn_id _, fun loc _ => same loc⟩, data⟩

theorem FilesKept.refl (d : Disk) : FilesKept logs d d :=
  .of_fileAt? (fun _ => rfl) fun _ _ => rfl

theorem FilesKept.trans {a b c : Disk} (first : FilesKept logs a b) (second : FilesKept logs b c) :
    FilesKept logs a c := by
  obtain ⟨f, f_bij, f_same⟩ := first.moved
  obtain ⟨g, g_bij, g_same⟩ := second.moved
  refine ⟨⟨g ∘ f, g_bij.comp f_bij, fun loc there => ?_⟩, fun id other => ?_⟩
  · exact (g_same _ (f_bij.mapsTo there)).trans (f_same loc there)
  · exact (second.data id other).trans (first.data id other)

/-- No file is lost, and none comes into being. -/
theorem FilesKept.ncard_eq (kept : FilesKept logs d d') :
    d.filePlaces.ncard = d'.filePlaces.ncard := by
  obtain ⟨f, bij, -⟩ := kept.moved
  exact bij.ncard_eq

/-! ## Carrying a folder -/

theorem relocated_below {old new loc : Location} (below : old <+: loc) :
    relocated old new loc = new ++ loc.drop old.length := by
  rw [relocated, if_pos (List.isPrefixOf_iff_prefix.2 below)]

theorem relocated_apart {old new loc : Location} (apart : ¬old <+: loc) :
    relocated old new loc = loc := by
  rw [relocated, if_neg (mt List.isPrefixOf_iff_prefix.1 apart)]

/-- Different locations are relocated to different ones when nothing is below the new
location. -/
theorem relocated_inj {old new a b : Location} (a_apart : ¬new <+: a) (b_apart : ¬new <+: b)
    (same : relocated old new a = relocated old new b) : a = b := by
  by_cases a_below : old <+: a
  · rw [relocated_below a_below] at same
    by_cases b_below : old <+: b
    · rw [relocated_below b_below] at same
      obtain ⟨x, rfl⟩ := a_below
      obtain ⟨y, rfl⟩ := b_below
      simpa using same
    · rw [relocated_apart b_below] at same
      exact absurd ⟨_, same⟩ b_apart
  · rw [relocated_apart a_below] at same
    by_cases b_below : old <+: b
    · rw [relocated_below b_below] at same
      exact absurd ⟨_, same.symm⟩ a_apart
    · rwa [relocated_apart b_below] at same

/-- A map made of the entries of another, under new keys that are all different. -/
theorem getElem?_ofList_relocated (old : Location) {new loc : Location} {e : Entry}
    (clear : ∀ loc, new <+: loc → d.get? loc = none) (there : d.get? loc = some e) :
    (Std.TreeMap.ofList (d.entries.toList.map fun (loc, e) => (relocated old new loc, e)) :
      Std.TreeMap Location Entry)[relocated old new loc]? = some e := by
  have apart : ∀ k ∈ d.entries.toList, ¬new <+: k.1 := by
    intro k member below
    have stands := Std.TreeMap.mem_toList_iff_getElem?_eq_some.1 (show (k.1, k.2) ∈ _ from member)
    have none_there : d.entries[k.1]? = none := clear k.1 below
    rw [none_there] at stands
    cases stands
  refine Std.TreeMap.getElem?_ofList_of_mem (k := relocated old new loc)
    (Std.ReflCmp.compare_self) ?_ ?_
  · rw [List.pairwise_map]
    refine List.Pairwise.imp_of_mem (fun {a b} a_in b_in differ same => differ ?_)
      Std.TreeMap.distinct_keys_toList
    have equal := relocated_inj (apart a a_in) (apart b b_in) (Std.LawfulEqCmp.eq_of_compare same)
    rw [equal]
    exact Std.ReflCmp.compare_self
  · exact List.mem_map.2 ⟨(loc, e), Std.TreeMap.mem_toList_iff_getElem?_eq_some.2 there, rfl⟩

/-- Every entry of a map made under new keys comes from one of the old keys. -/
theorem exists_of_getElem?_ofList {old new loc : Location} {e : Entry}
    (clear : ∀ loc, new <+: loc → d.get? loc = none)
    (there : (Std.TreeMap.ofList (d.entries.toList.map fun (loc, e) => (relocated old new loc, e)) :
      Std.TreeMap Location Entry)[loc]? = some e) :
    ∃ earlier, d.get? earlier = some e ∧ relocated old new earlier = loc := by
  have known : loc ∈ (Std.TreeMap.ofList (d.entries.toList.map fun (loc, e) =>
      (relocated old new loc, e)) : Std.TreeMap Location Entry) :=
    Std.TreeMap.mem_iff_isSome_getElem?.2 (by rw [there]; rfl)
  rw [Std.TreeMap.mem_ofList, List.map_map, List.contains_iff_mem] at known
  obtain ⟨⟨earlier, e'⟩, member, rfl⟩ := List.mem_map.1 known
  have before : d.get? earlier = some e' := Std.TreeMap.mem_toList_iff_getElem?_eq_some.1 member
  have after := getElem?_ofList_relocated old clear before
  exact ⟨earlier, before.trans (after.symm.trans there), rfl⟩

/-- What stands where after a folder was moved to a place with nothing at it or below. -/
theorem get?_moveEntry_folder {old new : Location} {stats : Stats}
    (folder : d.get? old = some (.folder stats)) (clear : ∀ loc, new <+: loc → d.get? loc = none)
    (loc : Location) :
    (d.moveEntry old new).get? loc =
      if new <+: loc then d.get? (old ++ loc.drop new.length)
      else if old <+: loc then none else d.get? loc := by
  have moved : (d.moveEntry old new).get? loc = (Std.TreeMap.ofList (d.entries.toList.map
      fun (loc, e) => (relocated old new loc, e)) : Std.TreeMap Location Entry)[loc]? := by
    rw [moveEntry, folder]
    rfl
  rw [moved]
  refine Option.ext fun e => ⟨fun after => ?_, fun before => ?_⟩
  · obtain ⟨earlier, before, rfl⟩ := exists_of_getElem?_ofList clear after
    by_cases below : old <+: earlier
    · obtain ⟨rest, rfl⟩ := below
      simpa [relocated_below] using before
    · have outside : ¬new <+: earlier := fun inside => by
        rw [clear _ inside] at before
        cases before
      simpa [relocated_apart below, outside, below] using before
  · split at before
    · next below =>
      obtain ⟨rest, rfl⟩ := below
      rw [List.drop_left] at before
      have after := getElem?_ofList_relocated old clear before
      rwa [relocated_below (List.prefix_append _ _), List.drop_left] at after
    · split at before
      · cases before
      · next apart =>
        have after := getElem?_ofList_relocated old clear before
        rwa [relocated_apart apart] at after

theorem get?_of_hasChildren {folder loc : Location} (empty : d.hasChildren folder = false)
    (below : folder <+: loc) (apart : folder ≠ loc) : d.get? loc = none := by
  by_contra there
  obtain ⟨e, found⟩ := Option.ne_none_iff_exists'.1 there
  have found : d.entries[loc]? = some e := found
  have key : loc ∈ d.entries.keys :=
    Std.TreeMap.mem_keys.2 (Std.TreeMap.mem_iff_isSome_getElem?.2 (by rw [found]; rfl))
  rw [hasChildren, List.any_eq_false] at empty
  exact empty loc key (by simp [below, apart.symm])

/-! ## Carrying any entry -/

section

variable {oldFolder newFolder : Location} {oldName newName : Name} {entry : Entry}

/-- A move never goes to a place below its source. -/
theorem Movable.not_inside (movable : d.Movable cwd source target oldFolder oldName newFolder newName
    entry) (apart : oldFolder ++ [oldName] ≠ newFolder ++ [newName]) :
    ¬oldFolder ++ [oldName] <+: newFolder ++ [newName] := by
  intro below
  rcases List.prefix_concat_iff.1 below with same | below
  · exact apart same
  · exact movable.not_below below

/-- What may be replaced has nothing below it. -/
theorem shape?_below_replaced (tree : d.IsTree) {loc new : Location}
    (replace : d.checkReplace entry new (d.get? new) = .ok ()) (below : new <+: loc)
    (apart : new ≠ loc) : d.shape? loc = none := by
  cases there : d.get? new with
  | none => exact tree.none_below (by simp [shape?, there]) below apart
  | some e =>
      cases e with
      | folder stats =>
          rw [there] at replace
          cases entry with
          | folder stats' =>
              refine shape?_eq_none.2 (get?_of_hasChildren ?_ below apart)
              by_contra full
              simp [checkReplace, full] at replace
          | _ => simp [checkReplace] at replace
      | _ => exact tree.none_below (by simp [shape?, there]) below apart

/-- What stands where after any entry was carried: what was at the old location or below
it is at the new one or below that, and all else is as before. -/
theorem shape?_carried (now : Instant) (tree : d.IsTree)
    (movable : d.Movable cwd source target oldFolder oldName newFolder newName entry)
    (other : ¬d.alreadyThere (oldFolder ++ [oldName]) (newFolder ++ [newName]) entry)
    (replace : d.checkReplace entry (newFolder ++ [newName]) (d.get? (newFolder ++ [newName])) =
      .ok ()) (loc : Location) :
    (d.carried now oldFolder oldName newFolder newName).shape? loc =
      if newFolder ++ [newName] <+: loc then
        d.shape? (oldFolder ++ [oldName] ++ loc.drop (newFolder ++ [newName]).length)
      else if oldFolder ++ [oldName] <+: loc then none
      else d.shape? loc := by
  have apart : oldFolder ++ [oldName] ≠ newFolder ++ [newName] := fun same => other (.inl same)
  have not_inside := movable.not_inside apart
  by_cases leaf : entry.shape = .folder
  · obtain ⟨stats, rfl⟩ := Entry.shape_eq_folder.1 leaf
    have dropped : ∀ loc, ¬newFolder ++ [newName] = loc →
        (d.drop (newFolder ++ [newName])).shape? loc = d.shape? loc :=
      fun loc differs => by rw [shape?_drop, if_neg differs]
    have folder : (d.drop (newFolder ++ [newName])).get? (oldFolder ++ [oldName]) =
        some (.folder stats) := by
      rw [get?_drop, if_neg apart.symm, movable.there]
    have clear : ∀ loc, newFolder ++ [newName] <+: loc →
        (d.drop (newFolder ++ [newName])).get? loc = none := by
      intro loc below
      by_cases same : newFolder ++ [newName] = loc
      · rw [get?_drop, if_pos same]
      · exact shape?_eq_none.1 ((dropped loc same).trans
          (shape?_below_replaced tree replace below same))
    rw [carried, shape?_stampFolder, shape?_stampFolder, shape?, get?_moveEntry_folder folder clear]
    split
    · rw [← shape?, dropped]
      intro same
      exact not_inside ⟨_, same.symm⟩
    · next not_below =>
      split
      · rfl
      · rw [← shape?, dropped]
        rintro rfl
        exact not_below List.prefix_rfl
  · -- Nothing is below a leaf, so at most one location on either side counts.
    rw [shape?_carried_leaf now movable.there leaf apart]
    have old_leaf : d.shape? (oldFolder ++ [oldName]) ≠ some .folder := by
      rw [shape?, movable.there]
      simpa using leaf
    by_cases at_new : newFolder ++ [newName] = loc
    · subst at_new
      simp [shape?, movable.there]
    · rw [if_neg at_new]
      by_cases below_new : newFolder ++ [newName] <+: loc
      · rw [if_pos below_new, shape?_below_replaced tree replace below_new at_new, ite_self]
        obtain ⟨rest, rfl⟩ := below_new
        rw [List.drop_left]
        refine (tree.none_below old_leaf (List.prefix_append _ _) fun same => at_new ?_).symm
        have empty : rest = [] := by simpa using same
        rw [empty, List.append_nil]
      · rw [if_neg below_new]
        by_cases at_old : oldFolder ++ [oldName] = loc
        · rw [if_pos at_old, if_pos (at_old ▸ List.prefix_rfl)]
        · rw [if_neg at_old]
          split
          · next below_old => exact tree.none_below old_leaf below_old at_old
          · rfl

/-- A disk stays a tree when an entry is carried. -/
theorem IsTree.carried (tree : d.IsTree)
    (movable : d.Movable cwd source target oldFolder oldName newFolder newName entry)
    (other : ¬d.alreadyThere (oldFolder ++ [oldName]) (newFolder ++ [newName]) entry)
    (replace : d.checkReplace entry (newFolder ++ [newName]) (d.get? (newFolder ++ [newName])) =
      .ok ()) : (d.carried now oldFolder oldName newFolder newName).IsTree := by
  have shape := shape?_carried now tree movable other replace
  obtain ⟨_, target_last, -⟩ := movable.target_last
  refine ⟨?_, fun loc name standing => ?_⟩
  · rw [shape, if_neg (by simp), if_neg (by simp)]
    exact tree.root
  · rw [shape] at standing ⊢
    by_cases below_new : newFolder ++ [newName] <+: loc
    · rw [if_pos (below_new.trans (List.prefix_append _ _))] at standing
      rw [if_pos below_new]
      obtain ⟨rest, rfl⟩ := below_new
      rw [List.append_assoc (_ ++ _) rest, List.drop_left, ← List.append_assoc] at standing
      rw [List.drop_left]
      exact tree.parent _ _ standing
    · rw [if_neg below_new]
      by_cases at_new : newFolder ++ [newName] <+: loc ++ [name]
      · -- The entry itself stands in its new folder.
        rcases List.prefix_concat_iff.1 at_new with same | below
        · obtain ⟨rfl, -⟩ := List.append_inj' same rfl
          rw [if_neg movable.not_below]
          exact folder_of_findLast target_last
        · exact absurd below below_new
      · rw [if_neg at_new] at standing
        split at standing
        · exact absurd rfl standing
        · next not_old =>
          rw [if_neg fun below => not_old (below.trans (List.prefix_append _ _))]
          exact tree.parent loc name standing

/-- Every file afterwards stood somewhere before, and not at the new location. -/
theorem exists_filePlace_of_carried (tree : d.IsTree)
    (movable : d.Movable cwd source target oldFolder oldName newFolder newName entry)
    (other : ¬d.alreadyThere (oldFolder ++ [oldName]) (newFolder ++ [newName]) entry)
    (replace : d.checkReplace entry (newFolder ++ [newName]) (d.get? (newFolder ++ [newName])) =
      .ok ()) {loc : Location}
    (there : loc ∈ (d.carried now oldFolder oldName newFolder newName).filePlaces) :
    ∃ earlier ∈ d.filePlaces \ {newFolder ++ [newName]},
      relocated (oldFolder ++ [oldName]) (newFolder ++ [newName]) earlier = loc := by
  have apart : oldFolder ++ [oldName] ≠ newFolder ++ [newName] := fun same => other (.inl same)
  obtain ⟨id, at_loc⟩ := mem_filePlaces.1 there
  rw [fileAt?_eq_shape, shape?_carried now tree movable other replace] at at_loc
  split at at_loc
  · next below =>
    obtain ⟨rest, rfl⟩ := below
    rw [List.drop_left, ← fileAt?_eq_shape] at at_loc
    refine ⟨oldFolder ++ [oldName] ++ rest, ⟨mem_filePlaces.2 ⟨id, at_loc⟩, fun same => ?_⟩, ?_⟩
    · exact movable.not_inside apart ⟨rest, same⟩
    · rw [relocated_below (List.prefix_append _ _), List.drop_left]
  · next not_new =>
    split at at_loc
    · cases at_loc
    · next not_old =>
      rw [← fileAt?_eq_shape] at at_loc
      refine ⟨loc, ⟨mem_filePlaces.2 ⟨id, at_loc⟩, fun same => ?_⟩, relocated_apart not_old⟩
      rw [Set.mem_singleton_iff.1 same] at not_new
      exact not_new List.prefix_rfl

/-- Carrying keeps all files when none stood at the new location. -/
theorem FilesKept.carried (tree : d.IsTree)
    (movable : d.Movable cwd source target oldFolder oldName newFolder newName entry)
    (other : ¬d.alreadyThere (oldFolder ++ [oldName]) (newFolder ++ [newName]) entry)
    (replace : d.checkReplace entry (newFolder ++ [newName]) (d.get? (newFolder ++ [newName])) =
      .ok ()) (free : newFolder ++ [newName] ∉ d.filePlaces) :
    FilesKept logs d (d.carried now oldFolder oldName newFolder newName) := by
  have shape := shape?_carried now tree movable other replace
  have outside : ∀ loc ∈ d.filePlaces, ¬newFolder ++ [newName] <+: loc := by
    intro loc there below
    by_cases same : newFolder ++ [newName] = loc
    · exact free (same ▸ there)
    · obtain ⟨id, at_loc⟩ := mem_filePlaces.1 there
      have none_there := shape?_below_replaced tree replace below same
      rw [fileAt?_eq_shape.1 at_loc] at none_there
      cases none_there
  have same : ∀ loc ∈ d.filePlaces, (d.carried now oldFolder oldName newFolder newName).fileAt?
      (relocated (oldFolder ++ [oldName]) (newFolder ++ [newName]) loc) = d.fileAt? loc := by
    intro loc there
    refine Option.ext fun id => ?_
    rw [fileAt?_eq_shape, fileAt?_eq_shape, shape]
    by_cases below : oldFolder ++ [oldName] <+: loc
    · obtain ⟨rest, rfl⟩ := below
      rw [relocated_below (List.prefix_append _ _), List.drop_left,
        if_pos (List.prefix_append _ _), List.drop_left]
    · rw [relocated_apart below, if_neg (outside loc there), if_neg below]
  refine ⟨⟨relocated (oldFolder ++ [oldName]) (newFolder ++ [newName]), ⟨?_, ?_, ?_⟩, same⟩,
    fun id _ => file?_carried ..⟩
  · intro loc there
    rw [mem_filePlaces, same loc there]
    exact mem_filePlaces.1 there
  · exact fun a a_there b b_there => relocated_inj (outside a a_there) (outside b b_there)
  · intro loc there
    obtain ⟨earlier, ⟨before, -⟩, at_loc⟩ :=
      exists_filePlace_of_carried tree movable other replace there
    exact ⟨earlier, before, at_loc⟩

/-- Carrying something to the location of a file leaves one file less. -/
theorem ncard_carried_lt (tree : d.IsTree)
    (movable : d.Movable cwd source target oldFolder oldName newFolder newName entry)
    (other : ¬d.alreadyThere (oldFolder ++ [oldName]) (newFolder ++ [newName]) entry)
    (replace : d.checkReplace entry (newFolder ++ [newName]) (d.get? (newFolder ++ [newName])) =
      .ok ()) (taken : newFolder ++ [newName] ∈ d.filePlaces) :
    (d.carried now oldFolder oldName newFolder newName).filePlaces.ncard < d.filePlaces.ncard := by
  have rest_finite := d.finite_filePlaces.subset (Set.sdiff_subset (t := {newFolder ++ [newName]}))
  calc (d.carried now oldFolder oldName newFolder newName).filePlaces.ncard
      ≤ (relocated (oldFolder ++ [oldName]) (newFolder ++ [newName]) ''
          (d.filePlaces \ {newFolder ++ [newName]})).ncard :=
        Set.ncard_le_ncard (fun _ there => exists_filePlace_of_carried tree movable other replace there)
          (rest_finite.image _)
    _ ≤ (d.filePlaces \ {newFolder ++ [newName]}).ncard := Set.ncard_image_le rest_finite
    _ < d.filePlaces.ncard := Set.ncard_sdiff_singleton_lt_of_mem taken d.finite_filePlaces

end

/-! ## Moves -/

/-- A move would put a file or a link in the place of another file. -/
def Displaces (d : Disk) (cwd : Location) (source target : Path) : Prop :=
  ∃ oldFolder oldName newFolder newName entry id,
    d.Movable cwd source target oldFolder oldName newFolder newName entry ∧
      entry.shape ≠ .folder ∧ d.get? (newFolder ++ [newName]) = some (.file id) ∧ entry ≠ .file id

/-- What a change of a disk does to files: when it loses none, all are kept, and otherwise
there are fewer. -/
structure Balance (logs : Set Nat) (lost : Prop) (d d' : Disk) : Prop where
  tree : d'.IsTree
  kept : ¬lost → FilesKept logs d d'
  fewer : lost → d'.filePlaces.ncard < d.filePlaces.ncard

theorem Balance.of_kept {lost : Prop} (none_lost : ¬lost) (tree : d'.IsTree)
    (kept : FilesKept logs d d') : Balance logs lost d d' :=
  ⟨tree, fun _ => kept, fun lost => absurd lost none_lost⟩

/-- Files are kept by two changes exactly when neither loses any: what is lost never comes
back. -/
theorem Balance.trans {a b c : Disk} {lost lost' : Prop} (first : Balance logs lost a b)
    (second : Balance logs lost' b c) : Balance logs (lost ∨ lost') a c := by
  have first_le : b.filePlaces.ncard ≤ a.filePlaces.ncard := by
    by_cases some_lost : lost
    · exact (first.fewer some_lost).le
    · exact (first.kept some_lost).ncard_eq.ge
  have second_le : c.filePlaces.ncard ≤ b.filePlaces.ncard := by
    by_cases some_lost : lost'
    · exact (second.fewer some_lost).le
    · exact (second.kept some_lost).ncard_eq.ge
  refine ⟨second.tree, fun none_lost => ?_, fun some_lost => ?_⟩
  · rw [not_or] at none_lost
    exact (first.kept none_lost.1).trans (second.kept none_lost.2)
  · rcases some_lost with some_lost | some_lost
    · exact second_le.trans_lt (first.fewer some_lost)
    · exact (second.fewer some_lost).trans_le first_le

/-- Files are kept exactly when none is lost. -/
theorem Balance.kept_iff {lost : Prop} (balance : Balance logs lost d d') :
    FilesKept logs d d' ↔ ¬lost := by
  refine ⟨fun kept some_lost => ?_, balance.kept⟩
  have := balance.fewer some_lost
  rw [kept.ncard_eq] at this
  exact this.false

/-- A disk with more folders has the files of the other. -/
theorem Widens.balance (widens : d.Widens d') (logs : Set Nat) (tree : d.IsTree) :
    Balance logs False d d' :=
  .of_kept id (widens.tree tree) (.of_fileAt? widens.fileAt? fun id _ => widens.file id)

/-- Two paths lead to one pair of locations only. -/
theorem Displaces.iff {oldFolder newFolder : Location} {oldName newName : Name} {entry : Entry}
    (movable : d.Movable cwd source target oldFolder oldName newFolder newName entry) :
    d.Displaces cwd source target ↔ entry.shape ≠ .folder ∧
      ∃ id, d.get? (newFolder ++ [newName]) = some (.file id) ∧ entry ≠ .file id := by
  constructor
  · rintro ⟨oldFolder', oldName', newFolder', newName', entry', id, movable', leaf, there, differs⟩
    obtain ⟨⟨_, source_last, -⟩, ⟨_, target_last, -⟩, standing, -, -, -⟩ := movable
    obtain ⟨⟨_, source_last', -⟩, ⟨_, target_last', -⟩, standing', -, -, -⟩ := movable'
    cases source_last.symm.trans source_last'
    cases target_last.symm.trans target_last'
    cases standing.symm.trans standing'
    exact ⟨leaf, id, there, differs⟩
  · rintro ⟨leaf, id, there, differs⟩
    exact ⟨_, _, _, _, _, id, movable, leaf, there, differs⟩

/-- What displaces a file is not that file already. -/
theorem Movable.not_alreadyThere {oldFolder newFolder : Location} {oldName newName : Name}
    {entry : Entry} {id : Nat}
    (movable : d.Movable cwd source target oldFolder oldName newFolder newName entry)
    (there : d.get? (newFolder ++ [newName]) = some (.file id)) (differs : entry ≠ .file id) :
    ¬d.alreadyThere (oldFolder ++ [oldName]) (newFolder ++ [newName]) entry := by
  rintro (same | same)
  · rw [← same, movable.there] at there
    exact differs (Option.some.inj there)
  · rw [there] at same
    cases entry with
    | file n => exact differs (congrArg Entry.file (eq_of_beq same))
    | _ => cases same

/-- Nothing refuses a move that displaces a file. -/
theorem Displaces.move_ok (displaces : d.Displaces cwd source target) (now : Instant) :
    ∃ d', d.move now cwd source target = .ok d' := by
  obtain ⟨oldFolder, oldName, newFolder, newName, entry, id, movable, leaf, there, differs⟩ :=
    displaces
  refine ⟨_, move_eq_ok.2 ⟨oldFolder, oldName, newFolder, newName, entry, movable,
    .inr ⟨movable.not_alreadyThere there differs, ?_, rfl⟩⟩⟩
  rw [there]
  cases entry with
  | folder stats => exact absurd rfl leaf
  | _ => rfl

/-- A move loses a file exactly when it displaces one. -/
theorem move_balance (logs : Set Nat) (tree : d.IsTree)
    (moved : d.move now cwd source target = .ok d') :
    Balance logs (d.Displaces cwd source target) d d' := by
  obtain ⟨oldFolder, oldName, newFolder, newName, entry, movable, outcome⟩ := move_eq_ok.1 moved
  rcases outcome with ⟨already, rfl⟩ | ⟨other, replace, rfl⟩
  · refine .of_kept (fun displaces => ?_) tree (.refl _)
    obtain ⟨-, id, there, differs⟩ := (Displaces.iff movable).1 displaces
    exact movable.not_alreadyThere there differs already
  · have displaces_iff : d.Displaces cwd source target ↔ newFolder ++ [newName] ∈ d.filePlaces := by
      rw [Displaces.iff movable, mem_filePlaces]
      simp only [fileAt?_eq_some]
      refine ⟨fun ⟨_, id, there, _⟩ => ⟨id, there⟩, fun ⟨id, there⟩ => ⟨fun folder => ?_, id, there, ?_⟩⟩
      · obtain ⟨stats, rfl⟩ := Entry.shape_eq_folder.1 folder
        rw [there] at replace
        cases replace
      · rintro rfl
        exact other (.inr (by simp [there, sameFile]))
    refine ⟨tree.carried movable other replace, fun free => ?_, fun taken => ?_⟩
    · exact .carried tree movable other replace (mt displaces_iff.2 free)
    · exact ncard_carried_lt tree movable other replace (displaces_iff.1 taken)

end Renumber.Disk
