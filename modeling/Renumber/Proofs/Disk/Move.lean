import Renumber.Proofs.Disk.Place

/-!
# What a move does

A move that succeeds has passed all its checks, and then either finds that source and
target are one file already, or takes away what stands at the new location and carries
the entry there. Nothing else can happen.
-/

namespace Renumber.Disk

open Renumber.Time (Instant)

variable {d d' : Disk} {now : Instant} {cwd : Location} {source target : Path}

/-- No check refuses a move of the entry from one location to the other. Only a folder
may be named with separators behind its name. -/
structure Movable (d : Disk) (cwd : Location) (source target : Path) (oldFolder : Location)
    (oldName : Name) (newFolder : Location) (newName : Name) (entry : Entry) : Prop where
  source_last : ∃ slashed, d.findLast cwd source = .ok ⟨oldFolder, some oldName, slashed⟩ ∧
    (slashed = true → entry.shape = .folder)
  target_last : ∃ slashed, d.findLast cwd target = .ok ⟨newFolder, some newName, slashed⟩ ∧
    (slashed = true → entry.shape = .folder)
  there : d.get? (oldFolder ++ [oldName]) = some entry
  short : newName.length ≤ maxName
  not_below : ¬oldFolder ++ [oldName] <+: newFolder
  not_above : ¬newFolder ++ [newName] <+: oldFolder

/-- Source and target of a move are one already. -/
def alreadyThere (d : Disk) (old new : Location) (entry : Entry) : Prop :=
  old = new ∨ (d.get? new).any (sameFile entry) = true

/-- The disk after an entry was carried from one location to another. -/
def carried (d : Disk) (now : Instant) (oldFolder : Location) (oldName : Name)
    (newFolder : Location) (newName : Name) : Disk :=
  (((d.drop (newFolder ++ [newName])).moveEntry (oldFolder ++ [oldName])
    (newFolder ++ [newName])).stampFolder now oldFolder).stampFolder now newFolder

theorem checkText_of_findLast {p : Path} {last : LastStep} (found : d.findLast cwd p = .ok last) :
    checkText p = .ok () := by
  rw [findLast] at found
  cases text : checkText p with
  | ok _ => rfl
  | error fault => rw [text] at found; cases found

/-- The checks of a move in their order, once both names and the entry are found. -/
theorem move_of_findLast {oldFolder newFolder : Location} {oldName newName : Name}
    {oldSlashed newSlashed : Bool} {entry : Entry}
    (source_last : d.findLast cwd source = .ok ⟨oldFolder, some oldName, oldSlashed⟩)
    (target_last : d.findLast cwd target = .ok ⟨newFolder, some newName, newSlashed⟩)
    (there : d.get? (oldFolder ++ [oldName]) = some entry) :
    d.move now cwd source target =
      if maxName < newName.length then .error .tooLong
      else if entry.shape ≠ .folder ∧ (oldSlashed || newSlashed) = true then .error .notFolder
      else if (oldFolder ++ [oldName]).isPrefixOf newFolder then .error .invalid
      else if (newFolder ++ [newName]).isPrefixOf oldFolder then .error .notEmpty
      else if (oldFolder ++ [oldName] = newFolder ++ [newName] ∨
          (d.get? (newFolder ++ [newName])).any (sameFile entry) = true) then .ok d
      else match d.checkReplace entry (newFolder ++ [newName])
          (d.get? (newFolder ++ [newName])) with
        | .error fault => .error fault
        | .ok _ => .ok (d.carried now oldFolder oldName newFolder newName) := by
  rw [move, checkText_of_findLast source_last, checkText_of_findLast target_last]
  simp only [bind, Except.bind, source_last, target_last, there, throw, throwThe,
    MonadExceptOf.throw, pure, Except.pure, gt_iff_lt, decide_eq_true_eq, Bool.or_eq_true]
  cases replace : d.checkReplace entry (newFolder ++ [newName])
    (d.get? (newFolder ++ [newName])) <;>
  cases entry <;> simp [carried]

/-- A move that succeeds found both names and the entry. -/
theorem names_of_move (moved : d.move now cwd source target = .ok d') :
    ∃ oldFolder oldName oldSlashed newFolder newName newSlashed entry,
      d.findLast cwd source = .ok ⟨oldFolder, some oldName, oldSlashed⟩ ∧
      d.findLast cwd target = .ok ⟨newFolder, some newName, newSlashed⟩ ∧
      d.get? (oldFolder ++ [oldName]) = some entry := by
  rw [move] at moved
  simp only [bind, Except.bind] at moved
  split at moved
  · cases moved
  split at moved
  · cases moved
  split at moved
  · cases moved
  next old source_last =>
  split at moved
  · cases moved
  next new target_last =>
  obtain ⟨oldFolder, oldName?, oldSlashed⟩ := old
  obtain ⟨newFolder, newName?, newSlashed⟩ := new
  cases oldName? with
  | none => cases moved
  | some oldName =>
      cases newName? with
      | none => cases moved
      | some newName =>
          cases there : d.get? (oldFolder ++ [oldName]) with
          | none =>
              simp only [there] at moved
              cases moved
          | some entry => exact ⟨oldFolder, oldName, oldSlashed, newFolder, newName, newSlashed,
              entry, source_last, target_last, there⟩

/-- A move succeeds when no check refuses it, and there are two ways in which it
does. -/
theorem move_eq_ok : d.move now cwd source target = .ok d' ↔
    ∃ oldFolder oldName newFolder newName entry,
      d.Movable cwd source target oldFolder oldName newFolder newName entry ∧
      (d.alreadyThere (oldFolder ++ [oldName]) (newFolder ++ [newName]) entry ∧ d' = d ∨
        ¬d.alreadyThere (oldFolder ++ [oldName]) (newFolder ++ [newName]) entry ∧
        d.checkReplace entry (newFolder ++ [newName]) (d.get? (newFolder ++ [newName])) = .ok () ∧
        d' = d.carried now oldFolder oldName newFolder newName) := by
  constructor
  · intro moved
    obtain ⟨oldFolder, oldName, oldSlashed, newFolder, newName, newSlashed, entry, source_last,
      target_last, there⟩ := names_of_move moved
    rw [move_of_findLast source_last target_last there] at moved
    split at moved
    · cases moved
    next short =>
    split at moved
    · cases moved
    next slashes =>
    split at moved
    · cases moved
    next not_below =>
    split at moved
    · cases moved
    next not_above =>
    rw [List.isPrefixOf_iff_prefix] at not_below not_above
    have slashed_folder : (oldSlashed || newSlashed) = true → entry.shape = .folder :=
      fun slashed => Classical.byContradiction fun other => slashes ⟨other, slashed⟩
    refine ⟨oldFolder, oldName, newFolder, newName, entry, ⟨?_, ?_, there, by omega, not_below,
      not_above⟩, ?_⟩
    · exact ⟨oldSlashed, source_last, fun slashed => slashed_folder (by simp [slashed])⟩
    · exact ⟨newSlashed, target_last, fun slashed => slashed_folder (by simp [slashed])⟩
    · split at moved
      · next already =>
        cases moved
        exact .inl ⟨already, rfl⟩
      · next other =>
        split at moved
        · cases moved
        · next replace =>
          cases moved
          exact .inr ⟨other, replace, rfl⟩
  · rintro ⟨oldFolder, oldName, newFolder, newName, entry,
      ⟨⟨oldSlashed, source_last, source_folder⟩, ⟨newSlashed, target_last, target_folder⟩, there,
        short, not_below, not_above⟩, outcome⟩
    have slashes : ¬(entry.shape ≠ .folder ∧ (oldSlashed || newSlashed) = true) := by
      rintro ⟨other, slashed⟩
      rcases Bool.or_eq_true_iff.1 slashed with slashed | slashed
      · exact other (source_folder slashed)
      · exact other (target_folder slashed)
    rw [move_of_findLast source_last target_last there, if_neg (by omega), if_neg slashes,
      if_neg (by rwa [List.isPrefixOf_iff_prefix]), if_neg (by rwa [List.isPrefixOf_iff_prefix])]
    simp only [alreadyThere] at outcome
    rcases outcome with ⟨already, rfl⟩ | ⟨other, replace, rfl⟩
    · rw [if_pos already]
    · rw [if_neg other, replace]

theorem folder_of_findLast {p : Path} {folder : Location} {name : Name} {slashed : Bool}
    (last : d.findLast cwd p = .ok ⟨folder, some name, slashed⟩) :
    d.shape? folder = some .folder := by
  obtain ⟨-, _, _, stats, -, -, -, -, walked⟩ := findLast_eq_ok.1 last
  exact shape?_eq_folder.2 ⟨stats, walkFrom_taken walked⟩

/-! ## What changes -/

@[simp] theorem file?_moveEntry (d : Disk) (old new : Location) (id : Nat) :
    (d.moveEntry old new).file? id = d.file? id := by
  rw [moveEntry]
  split <;> rfl

@[simp] theorem fresh_moveEntry (d : Disk) (old new : Location) :
    (d.moveEntry old new).fresh = d.fresh := by
  rw [moveEntry]
  split <;> rfl

@[simp] theorem file?_carried (d : Disk) (now : Instant) (oldFolder : Location) (oldName : Name)
    (newFolder : Location) (newName : Name) (id : Nat) :
    (d.carried now oldFolder oldName newFolder newName).file? id = d.file? id := by
  simp [carried]

@[simp] theorem fresh_carried (d : Disk) (now : Instant) (oldFolder : Location) (oldName : Name)
    (newFolder : Location) (newName : Name) :
    (d.carried now oldFolder oldName newFolder newName).fresh = d.fresh := by
  simp [carried]

/-- An entry with nothing below it leaves its location and stands at the new one; all
other locations are as before. -/
theorem shape?_carried_leaf (now : Instant) {oldFolder newFolder : Location}
    {oldName newName : Name} {entry : Entry} (there : d.get? (oldFolder ++ [oldName]) = some entry)
    (leaf : entry.shape ≠ .folder) (apart : oldFolder ++ [oldName] ≠ newFolder ++ [newName])
    (loc : Location) :
    (d.carried now oldFolder oldName newFolder newName).shape? loc =
      if newFolder ++ [newName] = loc then some entry.shape
      else if oldFolder ++ [oldName] = loc then none
      else d.shape? loc := by
  have stays : (d.drop (newFolder ++ [newName])).get? (oldFolder ++ [oldName]) = some entry := by
    rw [get?_drop, if_neg apart.symm, there]
  have moved : (d.drop (newFolder ++ [newName])).moveEntry (oldFolder ++ [oldName])
      (newFolder ++ [newName]) =
      ((d.drop (newFolder ++ [newName])).drop (oldFolder ++ [oldName])).put
        (newFolder ++ [newName]) entry := by
    rw [moveEntry]
    split
    · next missing =>
      rw [stays] at missing
      cases missing
    · next stats found =>
      rw [stays] at found
      cases found
      exact absurd rfl leaf
    · next e _ found =>
      rw [stays] at found
      cases found
      rfl
  rw [carried, shape?_stampFolder, shape?_stampFolder, moved, shape?_put, shape?_drop, shape?_drop]
  by_cases new : newFolder ++ [newName] = loc
  · rw [if_pos new, if_pos new]
  · rw [if_neg new, if_neg new, if_neg new]

end Renumber.Disk
