import Renumber.Proofs.World.Flat

/-!
# Renaming at once

What renames do to files is said without their order: every target holds what its source
held, sources that are no targets are gone, and nothing else changed. Where all paths
have places of their own, this is what moves at once do to the map of files.
-/

namespace Renumber.World

/-- A file system that is flat at some paths: each of them has a place, at which stands a
file or nothing, and different paths have different places. -/
structure Flat (w : World) (paths : List Path) : Prop where
  tree : w.disk.IsTree
  place : ∀ p ∈ paths, ∃ loc, w.place? p = some loc
  file : ∀ p ∈ paths, ∀ loc e, w.place? p = some loc → w.disk.get? loc = some e → ∃ id, e = .file id
  apart : ∀ p ∈ paths, ∀ q ∈ paths, w.place? p = w.place? q → p.components = q.components

/-- The data of the file at a path. -/
def fileData? (w : World) (p : Path) : Option FileData :=
  match w.disk.findEntry w.cwd false p with
  | .ok (_, .file id) => w.disk.file? id
  | _ => none

/-- The second world is the first after files were renamed at once: every target holds what
its source held, every source that is no target is gone, and nothing else changed. -/
structure Renamed (pairs : List (Path × Path)) (w w' : World) : Prop where
  target : ∀ m ∈ pairs, w'.present m.2 = true ∧ w'.fileData? m.2 = w.fileData? m.1
  source : ∀ m ∈ pairs, (∀ n ∈ pairs, n.2.same m.1 = false) → w'.present m.1 = false
  other : ∀ loc, (∀ m ∈ pairs, w.place? m.1 ≠ some loc ∧ w.place? m.2 ≠ some loc) →
    w'.disk.shape? loc = w.disk.shape? loc
  data : ∀ id, w'.disk.file? id = w.disk.file? id

variable {w w' : World} {paths : List Path} {p q : Path}

instance (w : World) (paths : List Path) : Decidable (w.Flat paths) :=
  decidable_of_iff (w.disk.IsTree ∧ (∀ p ∈ paths, (w.place? p).isSome = true) ∧
      (∀ p ∈ paths, ∀ loc ∈ w.place? p, ∀ e ∈ w.disk.get? loc, (w.disk.fileAt? loc).isSome = true) ∧
      ∀ p ∈ paths, ∀ q ∈ paths, w.place? p = w.place? q → p.components = q.components) <| by
    constructor
    · rintro ⟨tree, place, file, apart⟩
      refine ⟨tree, fun p member => Option.isSome_iff_exists.1 (place p member), ?_, apart⟩
      intro p member loc e at_p there
      obtain ⟨id, is_file⟩ := Option.isSome_iff_exists.1 (file p member loc at_p e there)
      rw [Disk.fileAt?_eq_some, there] at is_file
      exact ⟨id, Option.some.inj is_file⟩
    · rintro ⟨tree, place, file, apart⟩
      refine ⟨tree, fun p member => Option.isSome_iff_exists.2 (place p member), ?_, apart⟩
      intro p member loc at_p e there
      obtain ⟨id, rfl⟩ := file p member loc e at_p there
      exact Option.isSome_iff_exists.2 ⟨id, Disk.fileAt?_eq_some.2 there⟩

theorem Flat.mono {more : List Path} (flat : w.Flat more) (fewer : ∀ p ∈ paths, p ∈ more) :
    w.Flat paths where
  tree := flat.tree
  place p member := flat.place p (fewer p member)
  file p member := flat.file p (fewer p member)
  apart p member q member' := flat.apart p (fewer p member) q (fewer q member')

/-- Paths with places of their own: each has a place, and different paths have different
places. -/
structure Spread (w : World) (paths : List Path) : Prop where
  place : ∀ p ∈ paths, ∃ loc, w.place? p = some loc
  apart : ∀ p ∈ paths, ∀ q ∈ paths, w.place? p = w.place? q → p.components = q.components

instance (w : World) (paths : List Path) : Decidable (w.Spread paths) :=
  decidable_of_iff ((∀ p ∈ paths, (w.place? p).isSome = true) ∧
      ∀ p ∈ paths, ∀ q ∈ paths, w.place? p = w.place? q → p.components = q.components) <| by
    constructor
    · rintro ⟨place, apart⟩
      exact ⟨fun p member => Option.isSome_iff_exists.1 (place p member), apart⟩
    · rintro ⟨place, apart⟩
      exact ⟨fun p member => Option.isSome_iff_exists.2 (place p member), apart⟩

theorem Flat.spread (flat : w.Flat paths) : w.Spread paths :=
  ⟨flat.place, flat.apart⟩

/-- The location of a path that has one. -/
def locationOf (w : World) (p : Path) : Location :=
  (w.place? p).getD []

theorem Spread.place_eq (spread : w.Spread paths) (member : p ∈ paths) :
    w.place? p = some (w.locationOf p) := by
  obtain ⟨loc, place⟩ := spread.place p member
  rw [locationOf, place]
  rfl

/-- Paths with places of their own have one location exactly when they are one path. -/
theorem Spread.locationOf_eq_iff (spread : w.Spread paths) (member : p ∈ paths) (member' : q ∈ paths) :
    w.locationOf p = w.locationOf q ↔ p.components = q.components := by
  constructor
  · intro same
    refine spread.apart p member q member' ?_
    rw [spread.place_eq member, spread.place_eq member', same]
  · exact Disk.place?_same (spread.place_eq member) (spread.place_eq member')

/-- Of one path in two spellings both are present or none. -/
theorem Spread.present_congr (spread : w.Spread paths) (member : p ∈ paths) (member' : q ∈ paths)
    (same : p.components = q.components) : w.present p = w.present q := by
  rw [present, present, Disk.present_of_place (spread.place_eq member),
    Disk.present_of_place (spread.place_eq member'), (spread.locationOf_eq_iff member member').2 same]

theorem Flat.place_eq (flat : w.Flat paths) (member : p ∈ paths) :
    w.place? p = some (w.locationOf p) :=
  flat.spread.place_eq member

/-- At the paths of a flat file system stand files, or nothing. -/
theorem Flat.site (flat : w.Flat paths) (member : p ∈ paths) : w.Site p (w.locationOf p) where
  place := flat.place_eq member
  leaf e there := flat.file p member _ e (flat.place_eq member) there

theorem Flat.flatAt (flat : w.Flat paths) (member : p ∈ paths) : w.FlatAt p :=
  (flat.site member).flatAt

theorem Flat.locationOf_eq_iff (flat : w.Flat paths) (member : p ∈ paths) (member' : q ∈ paths) :
    w.locationOf p = w.locationOf q ↔ p.components = q.components :=
  flat.spread.locationOf_eq_iff member member'

theorem present_of_flatAt {loc : Location} (flat : w.FlatAt p) (place : w.place? p = some loc) :
    w.present p = (w.files loc).isSome := by
  rw [present, Disk.present_of_place place, flat.get?_place place]
  exact Option.isSome_map

theorem Flat.present_eq (flat : w.Flat paths) (member : p ∈ paths) :
    w.present p = (w.files (w.locationOf p)).isSome :=
  present_of_flatAt (flat.flatAt member) (flat.place_eq member)

theorem fileData?_of_flatAt {loc : Location} (flat : w.FlatAt p) (place : w.place? p = some loc) :
    w.fileData? p = (w.files loc).bind w.disk.file? := by
  rw [fileData?, Disk.findEntry_of_place place, flat.get?_place place, files]
  cases w.disk.fileAt? loc <;> rfl

/-- Moves at once in the map of files rename files at once. -/
theorem Renamed.of_carried {pairs : List (Path × Path)} (flat : w.Flat paths)
    (listed : ∀ m ∈ pairs, m.1 ∈ paths ∧ m.2 ∈ paths)
    (there : ∀ m ∈ pairs, w.present m.1 = true) (shuffles : Shuffles ∅ w w')
    (carried : FileMap.Carried (pairs.map (Prod.map w.locationOf w.locationOf)) w.files w'.files) :
    Renamed pairs w w' := by
  have place' : ∀ {p}, p ∈ paths → w'.place? p = some (w.locationOf p) := by
    intro p member
    rw [shuffles.place?]
    exact flat.place_eq member
  have flat' : ∀ {p}, p ∈ paths → w'.FlatAt p := fun member => shuffles.flatAt (flat.flatAt member)
  have data : ∀ id, w'.disk.file? id = w.disk.file? id :=
    fun id => shuffles.data id (Set.notMem_empty id)
  have brought : ∀ m ∈ pairs, w'.files (w.locationOf m.2) = w.files (w.locationOf m.1) :=
    fun m member => carried.target _ (List.mem_map_of_mem (f := Prod.map _ _) member)
  refine ⟨fun m member => ?_, fun m member untaken => ?_, fun loc untouched => ?_, data⟩
  · obtain ⟨source, target⟩ := listed m member
    rw [present_of_flatAt (flat' target) (place' target),
      fileData?_of_flatAt (flat' target) (place' target), brought m member,
      ← flat.present_eq source, fileData?_of_flatAt (flat.flatAt source) (flat.place_eq source), funext data]
    exact ⟨there m member, rfl⟩
  · have source := (listed m member).1
    have left : w'.files (w.locationOf m.1) = none := by
      refine carried.source _ (List.mem_map_of_mem (f := Prod.map _ _) member) fun n in_moves same => ?_
      obtain ⟨k, in_pairs, rfl⟩ := List.mem_map.1 in_moves
      have equal := (flat.locationOf_eq_iff (listed k in_pairs).2 source).1 same
      have other := untaken k in_pairs
      rw [Path.same_iff.2 equal] at other
      cases other
    rw [present_of_flatAt (flat' source) (place' source), left]
    rfl
  · refine shuffles.ways.shape?_eq (carried.other loc fun n in_moves => ?_)
    obtain ⟨m, member, rfl⟩ := List.mem_map.1 in_moves
    obtain ⟨source, target⟩ := listed m member
    obtain ⟨not_source, not_target⟩ := untouched m member
    rw [flat.place_eq source, ne_eq, Option.some.injEq] at not_source
    rw [flat.place_eq target, ne_eq, Option.some.injEq] at not_target
    exact ⟨not_source, not_target⟩

end Renumber.World
