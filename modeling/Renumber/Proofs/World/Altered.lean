import Renumber.Proofs.Run.Conduct
import Renumber.Proofs.World.Restate

/-!
# Files that are not as they were

A run that writes file states changes stats of files, and its log grows. Between two worlds
this is told by two sets of files: those whose mode and times may differ, and those that are
logs, which may differ in what they hold and in when they were modified. Entries, and with
them folders, are the same.
-/

namespace Renumber

open Renumber.Time (Instant)

/-- Data of a file that may have been logged to, and whose stats may have been set. -/
structure FileData.Altered (logged touched : Prop) (a b : FileData) : Prop where
  content : ¬logged → b.content = a.content
  created : b.stats.created = a.stats.created
  mode : ¬touched → b.stats.mode = a.stats.mode
  accessed : ¬touched → b.stats.accessed = a.stats.accessed
  modified : ¬touched → ¬logged → b.stats.modified = a.stats.modified

namespace World

variable {logs touched touched' : Set Nat} {base w w' : World} {id : Nat} {p : Path}
  {f : Stats → Stats}

/-- A world in which some files were logged to and some have other stats. -/
structure Altered (logs touched : Set Nat) (base w : World) : Prop where
  cwd : w.cwd = base.cwd
  get? : ∀ loc, w.disk.get? loc = base.disk.get? loc
  file? : ∀ id, Option.Rel (FileData.Altered (id ∈ logs) (id ∈ touched)) (base.disk.file? id)
    (w.disk.file? id)

theorem Altered.refl (w : World) : Altered logs touched w w where
  cwd := rfl
  get? _ := rfl
  file? id := by
    cases w.disk.file? id with
    | none => exact .none
    | some data => exact .some ⟨fun _ => rfl, rfl, fun _ => rfl, fun _ => rfl, fun _ _ => rfl⟩

theorem Altered.mono (altered : Altered logs touched base w) (more : touched ⊆ touched') :
    Altered logs touched' base w where
  cwd := altered.cwd
  get? := altered.get?
  file? id := by
    have before := altered.file? id
    generalize base.disk.file? id = first, w.disk.file? id = second at before ⊢
    have still : id ∉ touched' → id ∉ touched := fun untouched touched => untouched (more touched)
    cases before with
    | none => exact .none
    | some changed =>
        exact .some ⟨changed.content, changed.created, changed.mode ∘ still, changed.accessed ∘ still,
          changed.modified ∘ still⟩

theorem Altered.of_same (altered : Altered logs touched base w) (cwd : w'.cwd = w.cwd)
    (get? : ∀ loc, w'.disk.get? loc = w.disk.get? loc)
    (file? : ∀ id, w'.disk.file? id = w.disk.file? id) : Altered logs touched base w' where
  cwd := cwd.trans altered.cwd
  get? loc := (get? loc).trans (altered.get? loc)
  file? id := by
    rw [file?]
    exact altered.file? id

theorem Altered.of_disk_eq (altered : Altered logs touched base w) (disk : w'.disk = w.disk)
    (cwd : w'.cwd = w.cwd) : Altered logs touched base w' :=
  altered.of_same cwd (fun _ => by rw [disk]) fun _ => by rw [disk]

/-- Where only logs were written to in between, the same files may differ. -/
theorem Altered.andLogged (altered : Altered logs touched base w) (logged : Altered logs ∅ w w') :
    Altered logs touched base w' where
  cwd := logged.cwd.trans altered.cwd
  get? loc := (logged.get? loc).trans (altered.get? loc)
  file? id := by
    have first := altered.file? id
    have second := logged.file? id
    have still : id ∉ (∅ : Set Nat) := Set.notMem_empty id
    generalize base.disk.file? id = a, w.disk.file? id = b, w'.disk.file? id = c at first second ⊢
    cases first with
    | none =>
        cases second with
        | none => exact .none
    | some first =>
        cases second with
        | some second =>
            exact .some
              { content := fun unlogged => (second.content unlogged).trans (first.content unlogged)
                created := second.created.trans first.created
                mode := fun untouched => (second.mode still).trans (first.mode untouched)
                accessed := fun untouched => (second.accessed still).trans (first.accessed untouched)
                modified := fun untouched unlogged =>
                  (second.modified still unlogged).trans (first.modified untouched unlogged) }

/-- A run adds to its log. -/
theorem Altered.note {log : OperationLog} (altered : Altered logs touched base w)
    (known : log.file ∈ logs) (message : String) :
    Altered logs touched base ((log.write message).run w).2 := by
  obtain ⟨all, after⟩ := log.run_write message w
  rw [after]
  refine ⟨altered.cwd, fun loc => (Disk.get?_writeFile ..).trans (altered.get? loc), fun id => ?_⟩
  have before := altered.file? id
  dsimp only
  by_cases same : id = log.file
  · rw [same] at before ⊢
    cases there : w.disk.file? log.file with
    | none =>
        rw [Disk.writeFile, there]
        rwa [there] at before ⊢
    | some data =>
        rw [there] at before
        rw [Disk.file?_writeFile there]
        generalize base.disk.file? log.file = first at before ⊢
        cases before with
        | some changed =>
            exact .some ⟨fun unlogged => absurd known unlogged, changed.created, changed.mode,
              changed.accessed, fun _ unlogged => absurd known unlogged⟩
  · rw [Disk.file?_writeFile_of_ne _ _ _ same]
    exact before

/-- The stats of one file are changed, and what may differ of that file is known. -/
theorem Altered.restats (altered : Altered logs touched base w) (restats : Restats id f w w')
    (other : ∀ other ∈ touched, other ≠ id → other ∈ touched')
    (own : ∀ a b, base.disk.file? id = some a →
      FileData.Altered (id ∈ logs) (id ∈ touched) a b →
      FileData.Altered (id ∈ logs) (id ∈ touched') a { b with stats := f b.stats }) :
    Altered logs touched' base w' where
  cwd := restats.cwd.trans altered.cwd
  get? loc := (restats.get? loc).trans (altered.get? loc)
  file? other_id := by
    have before := altered.file? other_id
    rw [restats.file?]
    generalize here : base.disk.file? other_id = first, w.disk.file? other_id = second at before ⊢
    by_cases same : other_id = id
    · subst same
      rw [if_pos rfl]
      cases before with
      | none => exact .none
      | some changed => exact .some (own _ _ here changed)
    · rw [if_neg same]
      have still : other_id ∉ touched' → other_id ∉ touched :=
        fun untouched touched => untouched (other _ touched same)
      cases before with
      | none => exact .none
      | some changed =>
          exact .some ⟨changed.content, changed.created, changed.mode ∘ still,
            changed.accessed ∘ still, changed.modified ∘ still⟩

/-! ## What paths show -/

/-- The path leads to the same file. -/
theorem Altered.dataOf? (altered : Altered logs touched base w) (p : Path) :
    w.disk.dataOf? w.cwd p = base.disk.dataOf? base.cwd p := by
  rw [altered.cwd]
  refine Disk.dataOf?_of_get? altered.get? fun id => ?_
  have same := altered.file? id
  generalize base.disk.file? id = first, w.disk.file? id = second at same ⊢
  cases same <;> rfl

/-- Where a path leads to no file that has data, it shows what it showed. -/
theorem Altered.readStats_of_none (altered : Altered logs touched base w)
    (leads : base.disk.dataOf? base.cwd p = none) {stats : Stats}
    (read : base.disk.readStats base.cwd p = .ok stats) :
    w.disk.readStats w.cwd p = .ok stats := by
  obtain ⟨loc, e, found, known⟩ := Disk.readStats_eq_ok.1 read
  have there := Disk.get?_of_findEntry found
  rw [altered.cwd]
  refine Disk.readStats_eq_ok.2 ⟨loc, e, (Disk.findEntry_of_get? altered.get?).2 found, ?_⟩
  obtain folder | ⟨id, data, file, data_there, -⟩ := Disk.stats?_cases known
  · rw [Disk.stats?, altered.get?, folder]
  · rw [there] at file
    cases file
    have leads' := Disk.dataOf?_eq_some.2 ⟨loc, found, Option.isSome_of_mem data_there⟩
    rw [leads] at leads'
    cases leads'

/-- Every path shows the mode and the times that it shows in the base. Only where it leads to
a log, that may have been modified at another time. -/
def Restored (logs : Set Nat) (base w : World) : Prop :=
  ∀ p stats, base.disk.readStats base.cwd p = .ok stats →
    ∃ stats', w.disk.readStats w.cwd p = .ok stats' ∧ stats'.mode = stats.mode ∧
      stats'.accessed = stats.accessed ∧ stats'.created = stats.created ∧
      (stats'.modified = stats.modified ∨ ∃ id ∈ logs, base.disk.dataOf? base.cwd p = some id)

theorem Altered.restored (altered : Altered logs ∅ base w) : Restored logs base w := by
  intro p stats read
  cases leads : base.disk.dataOf? base.cwd p with
  | none => exact ⟨stats, altered.readStats_of_none leads read, rfl, rfl, rfl, .inl rfl⟩
  | some id =>
      obtain ⟨a, there, read_a⟩ := Disk.readStats_of_dataOf? leads
      rw [read_a] at read
      cases read
      obtain ⟨b, there', read_b⟩ := Disk.readStats_of_dataOf? ((altered.dataOf? p).trans leads)
      have changed := altered.file? id
      rw [there, there'] at changed
      cases changed with
      | some changed =>
          have untouched : id ∉ (∅ : Set Nat) := Set.notMem_empty id
          refine ⟨b.stats, read_b, changed.mode untouched, changed.accessed untouched,
            changed.created, ?_⟩
          by_cases logged : id ∈ logs
          · exact .inr ⟨id, logged, rfl⟩
          · exact .inl (changed.modified untouched logged)

end World

end Renumber
