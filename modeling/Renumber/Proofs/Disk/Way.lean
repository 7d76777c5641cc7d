import Mathlib.Data.List.Infix
import Renumber.Proofs.Disk.Tree

/-!
# Ways on a disk without links

Without links a walk goes down into the folders that it names and up again at two dots, so
where it ends is a matter of the path alone. All locations that it passes are the way of
the path; making the folders above a path makes no folder anywhere else.
-/

namespace Renumber.Disk

open Renumber.Time (Instant)

variable {d d' : Disk} {now : Instant} {cwd loc folder : Location} {p q : Path} {name : Name}
  {follow slashed : Bool}

/-- No link stands on the disk. -/
def Unlinked (d : Disk) : Prop :=
  ∀ loc target, d.get? loc ≠ some (.link target)

/-- Links neither come nor go with folders. -/
theorem Widens.unlinked (widens : d.Widens d') (unlinked : d.Unlinked) : d'.Unlinked := by
  intro loc target there
  have link := shape?_eq_link.2 there
  obtain same | ⟨-, folder⟩ := widens.shape loc
  · exact unlinked loc target (shape?_eq_link.1 (same ▸ link))
  · rw [folder] at link
    cases link

/-- One step of a walk by a segment that counts. -/
def stepBy (loc : Location) (s : List UInt8) : Location :=
  if s = [Path.dot, Path.dot] then loc.dropLast else loc ++ [s]

theorem stepBy_up (loc : Location) : stepBy loc [Path.dot, Path.dot] = loc.dropLast :=
  if_pos rfl

theorem stepBy_name (isName : IsName name) (loc : Location) : stepBy loc name = loc ++ [name] :=
  if_neg isName.2

/-- The location that segments lead to. -/
def leadTo (loc : Location) (segs : List (List UInt8)) : Location :=
  (segs.filter Path.isReal).foldl stepBy loc

theorem leadTo_skip {s : List UInt8} (skipped : Path.isReal s = false) (loc : Location)
    (rest : List (List UInt8)) : leadTo loc (s :: rest) = leadTo loc rest := by
  rw [leadTo, List.filter_cons_of_neg (by simp [skipped]), leadTo]

theorem leadTo_real {s : List UInt8} (real : Path.isReal s = true) (loc : Location)
    (rest : List (List UInt8)) : leadTo loc (s :: rest) = leadTo (stepBy loc s) rest := by
  rw [leadTo, List.filter_cons_of_pos real, List.foldl_cons, leadTo]

/-- The location of a path, whether or not anything is there. -/
def addressOf (cwd : Location) (p : Path) : Location :=
  p.reals.foldl stepBy (startOf cwd p)

/-- The locations on the way of a path, from where it starts to its own. -/
def wayOf (cwd : Location) (p : Path) : List Location :=
  p.reals.inits.map (·.foldl stepBy (startOf cwd p))

theorem mem_wayOf : loc ∈ wayOf cwd p ↔
    ∃ front, front <+: p.reals ∧ front.foldl stepBy (startOf cwd p) = loc := by
  rw [wayOf, List.mem_map]
  simp only [List.mem_inits]

theorem addressOf_mem_wayOf (cwd : Location) (p : Path) : addressOf cwd p ∈ wayOf cwd p :=
  mem_wayOf.2 ⟨p.reals, List.prefix_rfl, rfl⟩

/-- A path whose segments begin those of another has a part of its way. -/
theorem wayOf_subset (front : q.reals <+: p.reals) (start : startOf cwd q = startOf cwd p) :
    wayOf cwd q ⊆ wayOf cwd p := by
  intro loc member
  obtain ⟨first, part, rfl⟩ := mem_wayOf.1 member
  exact mem_wayOf.2 ⟨first, part.trans front, by rw [start]⟩

/-- Segments that are passed lead where they say. -/
theorem Leads.leadTo_eq {segs : List (List UInt8)} (leads : d.Leads loc segs folder) :
    leadTo loc segs = folder := by
  induction leads with
  | nil => rfl
  | skip skipped _ ih => rw [leadTo_skip skipped, ih]
  | up _ ih => rw [leadTo_real (by decide), stepBy_up, ih]
  | enter isName _ _ _ ih => rw [leadTo_real isName.1, stepBy_name isName, ih]

/-- No leg of a walk is a detour on a disk without links. -/
theorem walkLeg_ne_detour (unlinked : d.Unlinked) (loc : Location) (segs : List (List UInt8))
    (next : Location) (more : List (List UInt8)) :
    d.walkLeg follow loc segs ≠ .detour next more := by
  intro turns
  obtain ⟨front, back, last, -, -, stops⟩ := walkLeg_eq_iff.1 turns
  cases stops with
  | detour _ _ there _ => exact unlinked _ _ there

theorem walkFrom_unlinked (unlinked : d.Unlinked) (budget : Nat) (loc : Location)
    (segs : List (List UInt8)) (place : Except DiskFault Place) :
    d.walkFrom follow (budget + 1) loc segs = place ↔ d.walkLeg follow loc segs = .done place := by
  rw [walkFrom]
  split
  · next outcome leg => rw [leg, Leg.done.injEq]
  · next next more leg => exact absurd leg (walkLeg_ne_detour unlinked _ _ _ _)

/-- The name that a path ends in stands at the path's address. -/
theorem addressOf_of_findLast (unlinked : d.Unlinked)
    (last : d.findLast cwd p = .ok ⟨folder, some name, slashed⟩) :
    addressOf cwd p = folder ++ [name] := by
  obtain ⟨-, front, blank, stats, all, isName, blanks, -, walked⟩ := findLast_eq_ok.1 last
  have leg := (walkFrom_unlinked unlinked 40 _ _ _).1 walked
  rw [addressOf, reals_of_segments all isName blanks, List.foldl_append,
    ← (walkLeg_eq_folder.1 leg).1.leadTo_eq]
  exact stepBy_name isName _

theorem addressOf_of_place (unlinked : d.Unlinked) (place : d.place? cwd p = some loc) :
    addressOf cwd p = loc := by
  obtain ⟨folder, name, last, -, rfl⟩ := place?_eq_some.1 place
  exact addressOf_of_findLast unlinked last

/-- A leg that does not end at a folder comes to a folder before its last name. -/
theorem walkLeg_before (tree : d.IsTree) (unlinked : d.Unlinked)
    (here : d.shape? loc = some .folder) {segs : List (List UInt8)} {place : Place}
    (ends : d.walkLeg follow loc segs = .done (.ok place))
    (not_folder : ∀ loc stats, place ≠ .taken loc (.folder stats)) :
    ∃ front name blank folder stats, segs = front ++ name :: blank ∧ IsName name ∧
      (∀ s ∈ blank, s = []) ∧
      d.walkLeg true loc front = .done (.ok (.taken folder (.folder stats))) ∧
      d.walkLeg follow folder (name :: blank) = .done (.ok place) := by
  obtain ⟨front, back, folder, rfl, leads, stops⟩ := walkLeg_eq_iff.1 ends
  obtain ⟨stats, at_folder⟩ := shape?_eq_folder.1 (leads.folder tree here)
  have before : d.walkLeg true loc front = .done (.ok (.taken folder (.folder stats))) :=
    walkLeg_eq_folder.2 ⟨leads, at_folder⟩
  have last := stops.walkLeg_eq
  cases stops with
  | here there =>
      rw [at_folder] at there
      cases there
      exact absurd rfl (not_folder folder stats)
  | @vacant name blank isName _ _ blanks =>
      exact ⟨front, name, blank, folder, stats, rfl, isName, blanks, before, last⟩
  | @file name _ isName _ _ =>
      exact ⟨front, name, [], folder, stats, rfl, isName, List.forall_mem_nil _, before, last⟩
  | link _ _ there _ => exact absurd there (unlinked _ _)

/-- A path at which a file is found, or nothing in a folder, ends in a name in a folder. -/
theorem exists_findLast (tree : d.IsTree) (unlinked : d.Unlinked)
    (working : d.shape? cwd = some .folder) {place : Place}
    (found : d.find cwd follow p = .ok place)
    (not_folder : ∀ loc stats, place ≠ .taken loc (.folder stats)) :
    ∃ folder name slashed, d.findLast cwd p = .ok ⟨folder, some name, slashed⟩ ∧
      name.length ≤ maxName ∧
      ((∃ id, place = .taken (folder ++ [name]) (.file id) ∧ slashed = false) ∨
        place = .vacant folder name slashed ∧ d.get? (folder ++ [name]) = none) := by
  have here : d.shape? (startOf cwd p) = some .folder := by
    rw [startOf]
    split
    · exact tree.root
    · exact working
  rw [find] at found
  cases text : checkText p with
  | error fault =>
      rw [text] at found
      cases found
  | ok _ =>
      rw [text] at found
      have leg := (walkFrom_unlinked unlinked 40 _ _ _).1 found
      obtain ⟨front, name, blank, folder, stats, all, isName, blanks, before, ends⟩ :=
        walkLeg_before tree unlinked here leg not_folder
      have last : d.findLast cwd p = .ok ⟨folder, some name, !blank.isEmpty⟩ :=
        findLast_eq_ok.2 ⟨text, front, blank, stats, all, isName, blanks, rfl,
          (walkFrom_unlinked unlinked 40 _ _ _).2 before⟩
      refine ⟨folder, name, !blank.isEmpty, last, ?_⟩
      rw [walkLeg_name isName] at ends
      split at ends
      · cases ends
      next short =>
      refine ⟨by omega, ?_⟩
      split at ends
      · next free =>
        split at ends
        · cases ends
          exact .inr ⟨rfl, free⟩
        · cases ends
      · next stats' there =>
        rw [walkLeg_blank blanks, walkLeg_nil, there] at ends
        cases ends
        exact absurd rfl (not_folder _ _)
      · split at ends
        · next id _ none_follow =>
          cases ends
          exact .inl ⟨id, rfl, by rw [none_follow]; rfl⟩
        · cases ends
      · next target link => exact absurd link (unlinked _ _)

end Renumber.Disk
