import Renumber.Proofs.Disk.Plain

/-!
# Files whose stats can be written

A path leads to a file that has data, or its stats cannot be written. Both the file that a
path leads to and what stands at a location stay the same when data are changed. A disk is
proper if its permission bits and times are such as can be written there.
-/

namespace Renumber

open Renumber.Time (Instant)

/-- The mode has permission bits only, and the times count no leap seconds. -/
structure Stats.Proper (s : Stats) : Prop where
  mode : s.mode &&& Disk.modeMask = s.mode
  modified : s.modified.carry = s.modified
  accessed : s.accessed.carry = s.accessed

instance (s : Stats) : Decidable s.Proper :=
  decidable_of_iff (s.mode &&& Disk.modeMask = s.mode ∧ s.modified.carry = s.modified ∧
      s.accessed.carry = s.accessed)
    ⟨fun ⟨mode, modified, accessed⟩ => ⟨mode, modified, accessed⟩,
      fun proper => ⟨proper.mode, proper.modified, proper.accessed⟩⟩

namespace Disk

variable {d d' : Disk} {cwd loc : Location} {p : Path} {id : Nat}

/-- All stats on the disk are proper. -/
structure Proper (d : Disk) : Prop where
  folder : ∀ loc stats, d.get? loc = some (.folder stats) → stats.Proper
  file : ∀ id data, d.file? id = some data → data.stats.Proper

/-- The stats that an entry has of its own. -/
def ownStats? : Entry → Option Stats
  | .folder stats => some stats
  | _ => none

theorem proper_iff : d.Proper ↔ (∀ e ∈ d.entries.toList, ∀ stats ∈ ownStats? e.2, stats.Proper) ∧
    ∀ e ∈ d.files.toList, e.2.stats.Proper := by
  constructor
  · intro proper
    constructor
    · rintro ⟨loc, entry⟩ member stats own
      have there := get?_of_mem_entries member
      cases entry with
      | folder stats' =>
          cases own
          exact proper.folder loc stats there
      | _ => cases own
    · rintro ⟨id, data⟩ member
      exact proper.file id data (Std.TreeMap.mem_toList_iff_getElem?_eq_some.1 member)
  · rintro ⟨folder, file⟩
    constructor
    · intro loc stats there
      exact folder _ (mem_entries there) stats rfl
    · intro id data there
      exact file (id, data) (Std.TreeMap.mem_toList_iff_getElem?_eq_some.2 there)

instance (d : Disk) : Decidable d.Proper :=
  decidable_of_iff _ proper_iff.symm

/-- The file that a path leads to, if it has data. -/
def dataOf? (d : Disk) (cwd : Location) (p : Path) : Option Nat :=
  match d.findEntry cwd true p with
  | .ok (_, .file id) => if (d.file? id).isSome then some id else none
  | _ => none

theorem dataOf?_eq_some : d.dataOf? cwd p = some id ↔
    ∃ loc, d.findEntry cwd true p = .ok (loc, .file id) ∧ (d.file? id).isSome = true := by
  rw [dataOf?]
  constructor
  · intro found
    split at found
    · next loc file at_path =>
      split at found
      · next known =>
        cases found
        exact ⟨loc, at_path, known⟩
      · cases found
    · cases found
  · rintro ⟨loc, at_path, known⟩
    rw [at_path]
    dsimp only
    rw [if_pos known]

/-- What a path leads to depends on entries only. -/
theorem findEntry_of_get? (same : ∀ loc, d'.get? loc = d.get? loc) {follow : Bool} {e : Entry} :
    d'.findEntry cwd follow p = .ok (loc, e) ↔ d.findEntry cwd follow p = .ok (loc, e) := by
  have shape : d.SameShape d' := by
    intro loc
    rw [shape?, shape?, same]
  constructor
  · intro found
    have there := get?_of_findEntry found
    rw [same] at there
    exact findEntry_keeps shape.symm.keeps found there rfl
  · intro found
    have there := get?_of_findEntry found
    rw [← same] at there
    exact findEntry_keeps shape.keeps found there rfl

theorem dataOf?_of_get? (same : ∀ loc, d'.get? loc = d.get? loc)
    (known : ∀ id, (d'.file? id).isSome = (d.file? id).isSome) :
    d'.dataOf? cwd p = d.dataOf? cwd p := by
  apply Option.ext
  intro id
  rw [dataOf?_eq_some, dataOf?_eq_some, known]
  simp only [findEntry_of_get? same]

theorem readStats_eq_ok {stats : Stats} : d.readStats cwd p = .ok stats ↔
    ∃ loc e, d.findEntry cwd true p = .ok (loc, e) ∧ d.stats? loc = some stats := by
  rw [readStats]
  cases d.findEntry cwd true p with
  | error fault => exact ⟨nofun, fun ⟨_, _, found, _⟩ => nomatch found⟩
  | ok at_path =>
      obtain ⟨loc, e⟩ := at_path
      dsimp only [bind, Except.bind]
      constructor
      · intro read
        cases known : d.stats? loc with
        | none =>
            rw [known] at read
            cases read
        | some _ =>
            rw [known] at read
            cases read
            exact ⟨loc, e, rfl, known⟩
      · rintro ⟨_, _, found, known⟩
        cases found
        rw [known]
        rfl

/-- Stats are those of a folder or of a file that has data. -/
theorem stats?_cases {stats : Stats} (known : d.stats? loc = some stats) :
    d.get? loc = some (.folder stats) ∨
      ∃ id data, d.get? loc = some (.file id) ∧ d.file? id = some data ∧ data.stats = stats := by
  rw [stats?] at known
  split at known
  · next there =>
    cases known
    exact .inl there
  · next id there =>
    obtain ⟨data, present, same⟩ := Option.map_eq_some_iff.1 known
    exact .inr ⟨id, data, there, present, same⟩
  · cases known

/-- The file that a path leads to is one whose stats can be read. -/
theorem readStats_of_dataOf? (leads : d.dataOf? cwd p = some id) :
    ∃ data, d.file? id = some data ∧ d.readStats cwd p = .ok data.stats := by
  obtain ⟨loc, found, known⟩ := dataOf?_eq_some.1 leads
  obtain ⟨data, there⟩ := Option.isSome_iff_exists.1 known
  refine ⟨data, there, readStats_eq_ok.2 ⟨loc, _, found, ?_⟩⟩
  rw [stats?, get?_of_findEntry found]
  dsimp only
  rw [there, Option.map_some]

end Disk

end Renumber
