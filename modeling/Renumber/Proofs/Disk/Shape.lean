import Renumber.Disk.Deed

/-!
# The shape of a disk

Stats and contents change without anything moving. What remains when they are forgotten
is the shape: at which locations folders stand, which files have which names, and where
links lead. Walks go by folders and links only, so these are the ways of a disk.
-/

namespace Renumber

/-- What an entry is, apart from its stats. -/
inductive Shape where
  | folder
  | file (id : Nat)
  | link (target : Path)
  deriving DecidableEq, Repr

/-- The shape of an entry. -/
def Entry.shape : Entry → Shape
  | folder _ => .folder
  | file id => .file id
  | link target => .link target

@[simp] theorem Entry.shape_folder (stats : Stats) : (folder stats).shape = .folder := rfl

@[simp] theorem Entry.shape_file (id : Nat) : (file id).shape = .file id := rfl

@[simp] theorem Entry.shape_link (target : Path) : (link target).shape = .link target := rfl

theorem Entry.shape_eq_folder {e : Entry} : e.shape = .folder ↔ ∃ stats, e = folder stats := by
  cases e <;> simp [shape]

theorem Entry.shape_eq_file {e : Entry} {id : Nat} : e.shape = .file id ↔ e = file id := by
  cases e <;> simp [shape]

theorem Entry.shape_eq_link {e : Entry} {target : Path} :
    e.shape = .link target ↔ e = link target := by
  cases e <;> simp [shape]

namespace Disk

/-- The shape of what stands at a location. -/
def shape? (d : Disk) (loc : Location) : Option Shape :=
  (d.get? loc).map Entry.shape

/-- The number of the file at a location. -/
def fileAt? (d : Disk) (loc : Location) : Option Nat :=
  match d.get? loc with
  | some (.file id) => some id
  | _ => none

/-- Two disks with one shape. -/
def SameShape (a b : Disk) : Prop :=
  ∀ loc, a.shape? loc = b.shape? loc

/-- The folders and links of one disk are those of another. -/
structure Keeps (a b : Disk) : Prop where
  folder : ∀ loc, a.shape? loc = some .folder → b.shape? loc = some .folder
  link : ∀ loc target, a.shape? loc = some (.link target) → b.shape? loc = some (.link target)

theorem shape?_eq_some {d : Disk} {loc : Location} {s : Shape} :
    d.shape? loc = some s ↔ ∃ e, d.get? loc = some e ∧ e.shape = s := by
  simp [shape?]

theorem shape?_eq_none {d : Disk} {loc : Location} : d.shape? loc = none ↔ d.get? loc = none := by
  simp [shape?]

theorem shape?_eq_folder {d : Disk} {loc : Location} :
    d.shape? loc = some .folder ↔ ∃ stats, d.get? loc = some (.folder stats) := by
  rw [shape?_eq_some]
  constructor
  · rintro ⟨e, there, shape⟩
    obtain ⟨stats, rfl⟩ := Entry.shape_eq_folder.1 shape
    exact ⟨stats, there⟩
  · rintro ⟨stats, there⟩
    exact ⟨_, there, rfl⟩

theorem shape?_eq_file {d : Disk} {loc : Location} {id : Nat} :
    d.shape? loc = some (.file id) ↔ d.get? loc = some (.file id) := by
  simp [shape?, Entry.shape_eq_file]

theorem shape?_eq_link {d : Disk} {loc : Location} {target : Path} :
    d.shape? loc = some (.link target) ↔ d.get? loc = some (.link target) := by
  simp [shape?, Entry.shape_eq_link]

theorem fileAt?_eq_some {d : Disk} {loc : Location} {id : Nat} :
    d.fileAt? loc = some id ↔ d.get? loc = some (.file id) := by
  rw [fileAt?]
  split <;> simp_all

theorem fileAt?_eq_shape {d : Disk} {loc : Location} {id : Nat} :
    d.fileAt? loc = some id ↔ d.shape? loc = some (.file id) := by
  rw [fileAt?_eq_some, shape?_eq_file]

theorem shape?_put (d : Disk) (a b : Location) (e : Entry) :
    (d.put a e).shape? b = if a = b then some e.shape else d.shape? b := by
  rw [shape?, get?_put]
  split <;> rfl

theorem shape?_drop (d : Disk) (a b : Location) :
    (d.drop a).shape? b = if a = b then none else d.shape? b := by
  rw [shape?, get?_drop]
  split <;> rfl

@[simp] theorem get?_setFile (d : Disk) (id : Nat) (data : FileData) (loc : Location) :
    (d.setFile id data).get? loc = d.get? loc := rfl

@[simp] theorem file?_put (d : Disk) (loc : Location) (e : Entry) (id : Nat) :
    (d.put loc e).file? id = d.file? id := rfl

@[simp] theorem file?_drop (d : Disk) (loc : Location) (id : Nat) :
    (d.drop loc).file? id = d.file? id := rfl

@[simp] theorem fresh_put (d : Disk) (loc : Location) (e : Entry) : (d.put loc e).fresh = d.fresh :=
  rfl

@[simp] theorem fresh_drop (d : Disk) (loc : Location) : (d.drop loc).fresh = d.fresh := rfl

@[simp] theorem fresh_setFile (d : Disk) (id : Nat) (data : FileData) :
    (d.setFile id data).fresh = d.fresh := rfl

/-- Stamping a folder changes its stats only. -/
@[simp] theorem shape?_stampFolder (d : Disk) (now : Time.Instant) (folder loc : Location) :
    (d.stampFolder now folder).shape? loc = d.shape? loc := by
  rw [stampFolder]
  split
  · next stats there =>
    rw [shape?_put]
    split
    · next same =>
      subst same
      exact (shape?_eq_folder.2 ⟨_, there⟩).symm
    · rfl
  · rfl

@[simp] theorem file?_stampFolder (d : Disk) (now : Time.Instant) (folder : Location) (id : Nat) :
    (d.stampFolder now folder).file? id = d.file? id := by
  rw [stampFolder]
  split <;> rfl

@[simp] theorem fresh_stampFolder (d : Disk) (now : Time.Instant) (folder : Location) :
    (d.stampFolder now folder).fresh = d.fresh := by
  rw [stampFolder]
  split <;> rfl

theorem SameShape.refl (d : Disk) : d.SameShape d :=
  fun _ => rfl

theorem SameShape.symm {a b : Disk} (h : a.SameShape b) : b.SameShape a :=
  fun loc => (h loc).symm

theorem SameShape.trans {a b c : Disk} (h : a.SameShape b) (h' : b.SameShape c) : a.SameShape c :=
  fun loc => (h loc).trans (h' loc)

theorem SameShape.keeps {a b : Disk} (h : a.SameShape b) : a.Keeps b where
  folder loc there := h loc ▸ there
  link loc _ there := h loc ▸ there

theorem Keeps.refl (d : Disk) : d.Keeps d :=
  (SameShape.refl d).keeps

theorem Keeps.trans {a b c : Disk} (h : a.Keeps b) (h' : b.Keeps c) : a.Keeps c where
  folder loc there := h'.folder loc (h.folder loc there)
  link loc target there := h'.link loc target (h.link loc target there)

end Disk

end Renumber
