import Renumber.Proofs.Disk.Opened
import Renumber.Proofs.Disk.Stats
import Renumber.Proofs.History.Reload

/-!
# What is found at a path

What a path leads to can be read or not. It stays as it is while things come to stand on the
disk, unless the path was not found before: a file that is made can come to light there, through
a link, and so can one behind a folder that was missing.
-/

namespace Renumber

namespace Disk

open Renumber.Time (Instant)

variable {d d' : Disk} {now : Instant} {cwd : Location} {p : Path} {id : Nat} {data : FileData}

theorem readFile_of_missing (missing : d.reaches cwd p = false) :
    ∃ fault, d.readFile cwd p = .error fault := by
  rw [reaches] at missing
  cases found : d.findEntry cwd true p with
  | error fault => exact ⟨fault, by rw [readFile, found]; rfl⟩
  | ok out =>
      rw [found] at missing
      cases missing

theorem readFile_of_fileNumber (leads : d.fileNumber cwd p = .ok id) (known : d.file? id = some data) :
    d.readFile cwd p =
      if data.stats.mode &&& ownerRead = 0 then .error .denied else .ok data.content := by
  obtain ⟨loc, found⟩ := fileNumber_eq_ok.1 leads
  rw [readFile, found]
  simp only [bind, Except.bind, checkAccess, known]
  by_cases denied : data.stats.mode &&& ownerRead = 0
  · rw [if_pos denied, if_pos denied]
  · rw [if_neg denied, if_neg denied]
    rfl

/-- What is found is read as before if the file has the same data. -/
theorem readFile_within (within : d.Within d') (found : d.reaches cwd p = true)
    (file : ∀ id, d.fileNumber cwd p = .ok id → d'.file? id = d.file? id) :
    d'.readFile cwd p = d.readFile cwd p := by
  rw [reaches] at found
  cases ends : d.findEntry cwd true p with
  | error fault =>
      rw [ends] at found
      cases found
  | ok out =>
      obtain ⟨loc, e⟩ := out
      obtain ⟨e', ends', shape⟩ := within.findEntry ends
      rw [readFile, readFile, ends, ends']
      cases e with
      | file id =>
          obtain rfl := Entry.shape_eq_file.1 shape
          have same := file id (fileNumber_eq_ok.2 ⟨loc, ends⟩)
          simp only [bind, Except.bind, checkAccess, same]
      | folder stats =>
          obtain ⟨stats', rfl⟩ := Entry.shape_eq_folder.1 shape
          rfl
      | link target =>
          obtain rfl := Entry.shape_eq_link.1 shape
          rfl

theorem reaches_of_get? (same : ∀ loc, d'.get? loc = d.get? loc) (found : d'.reaches cwd p = true) :
    d.reaches cwd p = true := by
  have shape : ∀ loc, d'.shape? loc = d.shape? loc := by
    intro loc
    rw [shape?, shape?, same]
  have within : d'.Within d := fun loc s there => (shape loc).symm.trans there
  rw [reaches] at found ⊢
  cases ends : d'.findEntry cwd true p with
  | error fault =>
      rw [ends] at found
      cases found
  | ok out =>
      obtain ⟨e, ends', -⟩ := within.findEntry ends
      rw [ends']
      rfl

end Disk

namespace World

variable {u v w w' : World} {p q : Path} {text : List UInt8} {id : Nat}

/-- The bytes that can be read at a path; there are none where nothing can be read. -/
def bytesAt (w : World) (p : Path) : List UInt8 :=
  (w.disk.readFile w.cwd p).toOption.getD []

theorem bytesAt_of_disk (disk : w'.disk = w.disk) (cwd : w'.cwd = w.cwd) (p : Path) :
    w'.bytesAt p = w.bytesAt p := by
  rw [bytesAt, bytesAt, disk, cwd]

/-- Nothing changes at a path where nothing new is found and whose file stays as it is. -/
theorem bytesAt_within (cwd : w'.cwd = w.cwd) (within : w.disk.Within w'.disk)
    (shown : w'.reaches p = true → w.reaches p = true)
    (file : ∀ id, w.numberOf? p = some id → w'.disk.file? id = w.disk.file? id) :
    w'.bytesAt p = w.bytesAt p := by
  rw [bytesAt, bytesAt, cwd]
  cases found : w.reaches p with
  | true =>
      rw [Disk.readFile_within within found fun id leads => file id (numberOf?_eq_some.2 leads)]
  | false =>
      have missing : w'.disk.reaches w.cwd p = false := by
        rw [← cwd]
        exact Bool.eq_false_iff.2 fun there => Bool.false_ne_true (found.symm.trans (shown there))
      obtain ⟨fault, failed⟩ := Disk.readFile_of_missing missing
      obtain ⟨fault', failed'⟩ := Disk.readFile_of_missing found
      rw [failed, failed']
      rfl

/-- Some bytes were stored at a path. Whatever else is found then was found before, and what is
read at the path are these bytes, or what was read there before if reading is denied. -/
structure Writes (p : Path) (text : List UInt8) (w w' : World) : Prop extends Stores p text w w' where
  opened : ∃ d id, w.disk.openFile w.clock w.cwd p = .ok (d, id)
  shown : ∀ q, w'.reaches q = true → w.reaches q = true ∨ w'.numberOf? q = w'.numberOf? p
  bytes : w'.bytesAt p = w.bytesAt p ∨ w'.bytesAt p = text

/-- A deed that fails leaves the disk, and one that writes leaves its bytes. -/
theorem act_write (p : Path) (text : List UInt8) (w : World) :
    (∃ fault w', (act (.write p text)).run.run w = (.error fault, w') ∧ w'.disk = w.disk ∧
      w'.cwd = w.cwd) ∨
    ∃ w', (act (.write p text)).run.run w = (.ok (), w') ∧ Writes p text w w' := by
  have acted := run_act (.write p text) w
  cases opened : w.disk.openFile w.clock w.cwd p with
  | error fault =>
      have failed : (Deed.write p text).doOn w.disk w.clock w.cwd = .error fault := by
        rw [Deed.doOn, opened]
        rfl
      rw [failed] at acted
      exact .inl ⟨fault, _, acted, rfl, rfl⟩
  | ok out =>
      obtain ⟨d, id⟩ := out
      have written : (Deed.write p text).doOn w.disk w.clock w.cwd =
          .ok (d.writeFile w.clock id text) := by
        rw [Deed.doOn, opened]
        rfl
      rw [written] at acted
      have entries : ∀ loc, (d.writeFile w.clock id text).get? loc = d.get? loc :=
        fun loc => Disk.get?_writeFile d w.clock id text loc
      have leads : (d.writeFile w.clock id text).fileNumber w.cwd p = .ok id :=
        (Disk.within_writeFile d w.clock id text).fileNumber (Disk.openFile_within opened).2.1
      refine .inr ⟨_, acted, act_write_stores acted, ⟨d, id, opened⟩, fun q found => ?_, ?_⟩
      · refine (Disk.reaches_of_openFile opened (Disk.reaches_of_get? entries found)).imp_right ?_
        intro same
        have same := (Disk.within_writeFile d w.clock id text).fileNumber same
        rw [numberOf?_eq_some.2 same, numberOf?_eq_some.2 leads]
      · dsimp only [bytesAt, afterDeed_disk, afterDeed_cwd]
        obtain ⟨loc, found, rfl⟩ | ⟨folder, name, found, rfl, rfl⟩ := Disk.openFile_eq_ok opened
        · have leads_before : w.disk.fileNumber w.cwd p = .ok id := by
            refine Disk.fileNumber_eq_ok.2 ⟨loc, ?_⟩
            rw [Disk.findEntry, found]
            rfl
          cases known : w.disk.file? id with
          | none =>
              left
              rw [Disk.writeFile, known]
          | some data =>
              rw [Disk.readFile_of_fileNumber leads (Disk.file?_writeFile known w.clock text),
                Disk.readFile_of_fileNumber leads_before known]
              dsimp only
              split
              · exact .inl rfl
              · exact .inr rfl
        · right
          have fresh := (Disk.file?_addFile w.disk w.clock folder name w.disk.fresh).trans (if_pos rfl)
          rw [Disk.readFile_of_fileNumber leads (Disk.file?_writeFile fresh w.clock text)]
          have readable : ¬(Disk.freshStats Disk.fileMode w.clock).mode &&& Disk.ownerRead = 0 := by
            show ¬Disk.fileMode &&& Disk.ownerRead = 0
            decide
          rw [if_neg readable]
          rfl

/-- What is read elsewhere stays as it is. -/
theorem Writes.bytesAt_of_ne (writes : Writes p text w w') (apart : w'.numberOf? p ≠ w'.numberOf? q) :
    w'.bytesAt q = w.bytesAt q := by
  obtain ⟨id, leads, -, others⟩ := writes.file
  refine bytesAt_within writes.cwd writes.within (fun found => ?_) fun other before => ?_
  · exact (writes.shown q found).resolve_right (Ne.symm apart)
  · have still := numberOf?_within writes.within writes.cwd before
    refine others other fun same => apart ?_
    rw [leads, still, same]

end World

end Renumber
