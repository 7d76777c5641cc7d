import Renumber.FileState
import Renumber.Proofs.Disk.Stats
import Renumber.Proofs.World.Act

/-!
# Writing a file state

A state is written to the file that its path leads to, and to nothing else. Where the path
leads to no file that has data, nothing is written: a folder is made writable for the attempt
and gets its permissions back.
-/

namespace Renumber

open Outcome
open Renumber.Time (Instant)

namespace World

variable {w w' w'' : World} {id : Nat} {loc : Location} {p : Path} {f g : Stats → Stats}
  {stats stats' : Stats}

/-! ## Files -/

/-- The stats of one file were changed, and nothing else on the disk was. -/
structure Restats (id : Nat) (f : Stats → Stats) (w w' : World) : Prop where
  cwd : w'.cwd = w.cwd
  get? : ∀ loc, w'.disk.get? loc = w.disk.get? loc
  file? : ∀ other, w'.disk.file? other =
    if other = id then (w.disk.file? other).map fun data => { data with stats := f data.stats }
    else w.disk.file? other

theorem Restats.trans (first : Restats id f w w') (second : Restats id g w' w'') :
    Restats id (g ∘ f) w w'' where
  cwd := second.cwd.trans first.cwd
  get? loc := (second.get? loc).trans (first.get? loc)
  file? other := by
    rw [second.file?, first.file?]
    split
    · rw [Option.map_map]
      rfl
    · rfl

/-- What is done to other stats than those of the file does not count. -/
theorem Restats.congr (restats : Restats id f w w')
    (same : ∀ data, w.disk.file? id = some data → f data.stats = g data.stats) :
    Restats id g w w' where
  cwd := restats.cwd
  get? := restats.get?
  file? other := by
    rw [restats.file?]
    split
    · next this =>
      subst this
      apply Option.map_congr
      intro data there
      rw [same data there]
    · rfl

theorem Restats.findEntry (restats : Restats id f w w') {follow : Bool} {e : Entry}
    (found : w.disk.findEntry w.cwd follow p = .ok (loc, e)) :
    w'.disk.findEntry w'.cwd follow p = .ok (loc, e) := by
  rw [restats.cwd]
  exact (Disk.findEntry_of_get? restats.get?).2 found

/-- A path leads to the same file. -/
theorem Restats.dataOf? (restats : Restats id f w w') (p : Path) :
    w'.disk.dataOf? w'.cwd p = w.disk.dataOf? w.cwd p := by
  rw [restats.cwd]
  refine Disk.dataOf?_of_get? restats.get? fun other => ?_
  rw [restats.file?]
  split
  · exact Option.isSome_map
  · rfl

theorem restats_mapStats (there : w.disk.get? loc = some (.file id))
    (made : w'.disk = w.disk.mapStats loc f) (cwd : w'.cwd = w.cwd) : Restats id f w w' := by
  rw [Disk.mapStats, there] at made
  dsimp only at made
  cases data : w.disk.file? id with
  | none =>
      rw [data] at made
      have made : w'.disk = w.disk := made
      refine ⟨cwd, fun loc => by rw [made], fun other => ?_⟩
      rw [made]
      split
      · next same =>
        rw [same, data]
        rfl
      · rfl
  | some before =>
      rw [data] at made
      have made : w'.disk = w.disk.setFile id { before with stats := f before.stats } := made
      refine ⟨cwd, fun loc => by rw [made, Disk.get?_setFile], fun other => ?_⟩
      rw [made, Disk.file?_setFile]
      by_cases same : other = id
      · rw [if_pos same, if_pos same.symm, same, data]
        rfl
      · rw [if_neg same, if_neg (Ne.symm same)]

theorem run_setMode (found : w.disk.findEntry w.cwd true p = .ok (loc, .file id)) (mode : UInt32) :
    ∃ w', (FileState.setMode p mode).run.run w = (.ok (), w') ∧
      Restats id (fun stats => { stats with mode := mode &&& Disk.modeMask }) w w' := by
  have done : Deed.doOn w.disk w.clock w.cwd (.setMode p mode) =
      .ok (w.disk.mapStats loc fun stats => { stats with mode := mode &&& Disk.modeMask }) := by
    rw [Deed.doOn, Disk.setMode, found]
    rfl
  rw [FileState.setMode, run_act, done]
  exact ⟨_, rfl, restats_mapStats (Disk.get?_of_findEntry found) rfl rfl⟩

theorem run_setTimes (found : w.disk.findEntry w.cwd true p = .ok (loc, .file id))
    (modified accessed : Option Instant) :
    ∃ w', (World.act (.setTimes p modified accessed)).run.run w = (.ok (), w') ∧
      Restats id (fun stats => { stats with
        modified := (modified.map Instant.carry).getD stats.modified
        accessed := (accessed.map Instant.carry).getD stats.accessed }) w w' := by
  have done : Deed.doOn w.disk w.clock w.cwd (.setTimes p modified accessed) =
      .ok (w.disk.mapStats loc fun stats => { stats with
        modified := (modified.map Instant.carry).getD stats.modified
        accessed := (accessed.map Instant.carry).getD stats.accessed }) := by
    rw [Deed.doOn, Disk.setTimes, found]
    rfl
  rw [run_act, done]
  exact ⟨_, rfl, restats_mapStats (Disk.get?_of_findEntry found) rfl rfl⟩

/-! ## Folders -/

/-- A folder has these stats now, and nothing else on the disk was changed. -/
structure Refolded (loc : Location) (stats : Stats) (w w' : World) : Prop where
  cwd : w'.cwd = w.cwd
  get? : ∀ other, w'.disk.get? other =
    if loc = other then some (.folder stats) else w.disk.get? other
  file? : ∀ id, w'.disk.file? id = w.disk.file? id

theorem Refolded.trans (first : Refolded loc stats w w') (second : Refolded loc stats' w' w'') :
    Refolded loc stats' w w'' where
  cwd := second.cwd.trans first.cwd
  get? other := by
    rw [second.get?, first.get?]
    split <;> rfl
  file? id := (second.file? id).trans (first.file? id)

theorem Refolded.of_disk_eq (there : w.disk.get? loc = some (.folder stats))
    (disk : w'.disk = w.disk) (cwd : w'.cwd = w.cwd) : Refolded loc stats w w' where
  cwd := cwd
  get? other := by
    rw [disk]
    split
    · next same => rw [← same, there]
    · rfl
  file? id := by rw [disk]

/-- A folder that has its stats again is as it was. -/
theorem Refolded.get?_eq (refolded : Refolded loc stats w w')
    (there : w.disk.get? loc = some (.folder stats)) (other : Location) :
    w'.disk.get? other = w.disk.get? other := by
  rw [refolded.get?]
  split
  · next same => rw [← same, there]
  · rfl

theorem Refolded.findEntry (refolded : Refolded loc stats' w w')
    (found : w.disk.findEntry w.cwd true p = .ok (loc, .folder stats)) :
    w'.disk.findEntry w'.cwd true p = .ok (loc, .folder stats') := by
  have there := Disk.get?_of_findEntry found
  have shape : w.disk.SameShape w'.disk := by
    intro other
    rw [Disk.shape?, Disk.shape?, refolded.get?]
    split
    · next same =>
      rw [← same, there]
      rfl
    · rfl
  have there' := refolded.get? loc
  rw [if_pos rfl] at there'
  rw [refolded.cwd]
  exact Disk.findEntry_keeps shape.keeps found there' rfl

theorem run_setMode_folder (found : w.disk.findEntry w.cwd true p = .ok (loc, .folder stats))
    (mode : UInt32) : ∃ w', (FileState.setMode p mode).run.run w = (.ok (), w') ∧
      Refolded loc { stats with mode := mode &&& Disk.modeMask } w w' := by
  have done : Deed.doOn w.disk w.clock w.cwd (.setMode p mode) =
      .ok (w.disk.put loc (.folder { stats with mode := mode &&& Disk.modeMask })) := by
    rw [Deed.doOn, Disk.setMode, found]
    change Except.ok (w.disk.mapStats loc _) = _
    rw [Disk.mapStats, Disk.get?_of_findEntry found]
  rw [FileState.setMode, run_act, done]
  exact ⟨_, rfl, rfl, fun other => Disk.get?_put .., fun id => Disk.file?_put ..⟩

theorem run_setTimes_folder (found : w.disk.findEntry w.cwd true p = .ok (loc, .folder stats))
    (modified accessed : Option Instant) :
    ∃ w', (World.act (.setTimes p modified accessed)).run.run w = (.error .isFolder, w') ∧
      Refolded loc stats w w' := by
  have failed : Deed.doOn w.disk w.clock w.cwd (.setTimes p modified accessed) =
      .error .isFolder := by
    rw [Deed.doOn, Disk.setTimes, found]
    rfl
  rw [run_act, failed]
  exact ⟨_, rfl, .of_disk_eq (Disk.get?_of_findEntry found) rfl rfl⟩

end World

namespace FileState

variable {s : FileState} {w : World} {loc : Location} {id : Nat} {stats : Stats}

/-- The stats of a file after a state was written to it. -/
def written (s : FileState) (stats : Stats) : Stats :=
  { stats with
    mode := s.targetMode stats.mode &&& Disk.modeMask
    modified := (s.modified.map Instant.carry).getD stats.modified
    accessed := (s.accessed.map Instant.carry).getD stats.accessed }

/-- The part of writing a state for which the file is made writable. -/
def applyUnlocked (s : FileState) (former : UInt32) : Act DiskFault Unit :=
  tryCatch
    (do
      World.act (.setTimes s.path s.modified s.accessed)
      setMode s.path (s.targetMode former))
    fun fault => do
      tryCatch (setMode s.path former) fun _ => pure ()
      throw fault

theorem run_apply (s : FileState) (w : World) : s.apply.run.run w =
    match w.disk.readStats w.cwd s.path with
    | .error fault => (.error fault, w)
    | .ok stats =>
      if stats.mode ||| Disk.ownerWrite != stats.mode then
        (do
          setMode s.path (stats.mode ||| Disk.ownerWrite)
          s.applyUnlocked stats.mode).run.run w
      else (s.applyUnlocked stats.mode).run.run w := by
  have steps : s.apply = (do
      let stats ← World.ask fun disk cwd => disk.readStats cwd s.path
      if stats.mode ||| Disk.ownerWrite != stats.mode then
        setMode s.path (stats.mode ||| Disk.ownerWrite)
      s.applyUnlocked stats.mode) := rfl
  rw [steps, run_bind, World.run_ask]
  cases w.disk.readStats w.cwd s.path with
  | error fault => rfl
  | ok stats =>
      dsimp only
      rw [run_ite]

/-! ## Where the path leads to a file -/

theorem run_applyUnlocked (found : w.disk.findEntry w.cwd true s.path = .ok (loc, .file id))
    (former : UInt32) : ∃ w', (s.applyUnlocked former).run.run w = (.ok (), w') ∧
      World.Restats id (fun stats => s.written { stats with mode := former }) w w' := by
  obtain ⟨w₁, timed, times⟩ := World.run_setTimes found s.modified s.accessed
  obtain ⟨w₂, moded, mode⟩ := World.run_setMode (times.findEntry found) (s.targetMode former)
  refine ⟨w₂, ?_, times.trans mode⟩
  rw [applyUnlocked, run_tryCatch, run_bind, timed]
  dsimp only
  rw [moded]

/-- A state is written to the file that its path leads to. -/
theorem run_apply_of_dataOf? (leads : w.disk.dataOf? w.cwd s.path = some id) :
    ∃ w', s.apply.run.run w = (.ok (), w') ∧ World.Restats id s.written w w' := by
  obtain ⟨loc, found, -⟩ := Disk.dataOf?_eq_some.1 leads
  obtain ⟨data, there, read⟩ := Disk.readStats_of_dataOf? leads
  have own : ∀ data', w.disk.file? id = some data' → data'.stats.mode = data.stats.mode := by
    intro data' there'
    rw [Option.some.inj (there'.symm.trans there)]
  rw [run_apply, read]
  dsimp only
  split
  · obtain ⟨w₁, unlocked, restats⟩ := World.run_setMode found (data.stats.mode ||| Disk.ownerWrite)
    obtain ⟨w₂, done, applied⟩ := run_applyUnlocked (restats.findEntry found) data.stats.mode
    refine ⟨w₂, ?_, (restats.trans applied).congr fun data' there' => ?_⟩
    · rw [run_bind, unlocked]
      exact done
    · rw [← own data' there']
      rfl
  · obtain ⟨w₁, done, applied⟩ := run_applyUnlocked found data.stats.mode
    refine ⟨w₁, done, applied.congr fun data' there' => ?_⟩
    rw [← own data' there']

/-! ## Where it leads to none -/

theorem run_applyUnlocked_folder (found : w.disk.findEntry w.cwd true s.path = .ok (loc, .folder stats))
    (former : UInt32) : ∃ w', (s.applyUnlocked former).run.run w = (.error .isFolder, w') ∧
      World.Refolded loc { stats with mode := former &&& Disk.modeMask } w w' := by
  obtain ⟨w₁, failed, timed⟩ := World.run_setTimes_folder found s.modified s.accessed
  obtain ⟨w₂, restored, mode⟩ := World.run_setMode_folder (timed.findEntry found) former
  refine ⟨w₂, ?_, timed.trans mode⟩
  rw [applyUnlocked, run_tryCatch, run_bind, failed]
  dsimp only
  rw [run_bind, run_tryCatch, restored]
  rfl

/-- A state whose path leads to no file that has data cannot be written, and the attempt
leaves everything as it was. -/
theorem run_apply_of_none
    (proper : ∀ loc stats, w.disk.get? loc = some (.folder stats) → stats.Proper)
    (leads : w.disk.dataOf? w.cwd s.path = none) :
    ∃ fault w', s.apply.run.run w = (.error fault, w') ∧ w'.cwd = w.cwd ∧
      (∀ loc, w'.disk.get? loc = w.disk.get? loc) ∧ ∀ id, w'.disk.file? id = w.disk.file? id := by
  rw [run_apply]
  cases read : w.disk.readStats w.cwd s.path with
  | error fault => exact ⟨fault, w, rfl, rfl, fun _ => rfl, fun _ => rfl⟩
  | ok stats =>
      obtain ⟨loc, e, found, known⟩ := Disk.readStats_eq_ok.1 read
      have there := Disk.get?_of_findEntry found
      obtain folder | ⟨id, data, file, data_there, -⟩ := Disk.stats?_cases known
      · rw [there] at folder
        cases folder
        -- the mode that the folder gets back is the one it had
        have masked : { stats with mode := stats.mode &&& Disk.modeMask } = stats := by
          rw [(proper loc stats there).mode]
        dsimp only
        split
        · obtain ⟨w₁, unlocked, refolded⟩ :=
            World.run_setMode_folder found (stats.mode ||| Disk.ownerWrite)
          obtain ⟨w₂, failed, restored⟩ :=
            run_applyUnlocked_folder (refolded.findEntry found) stats.mode
          have back : World.Refolded loc stats w w₂ := masked ▸ refolded.trans restored
          refine ⟨.isFolder, w₂, ?_, back.cwd, back.get?_eq there, back.file?⟩
          rw [run_bind, unlocked]
          exact failed
        · obtain ⟨w₁, failed, restored⟩ := run_applyUnlocked_folder found stats.mode
          have back : World.Refolded loc stats w w₁ := masked ▸ restored
          exact ⟨.isFolder, w₁, failed, back.cwd, back.get?_eq there, back.file?⟩
      · rw [there] at file
        cases file
        have leads' := Disk.dataOf?_eq_some.2 ⟨loc, found, Option.isSome_of_mem data_there⟩
        rw [leads] at leads'
        cases leads'

/-! ## Writing back what was read -/

theorem run_read (path : Path) (w : World) : (read path).run.run w =
    ((w.disk.readStats w.cwd path).map (ofStats path), w) := by
  rw [read, run_bind, World.run_ask]
  cases w.disk.readStats w.cwd path <;> rfl

/-- Taking away bits that are not there changes nothing. -/
theorem and_not_of_and_eq_zero {a b : UInt32} (apart : a &&& b = 0) : a &&& ~~~b = a := by
  apply UInt32.eq_of_toBitVec_eq
  apply BitVec.eq_of_getElem_eq
  intro i bound
  have bit : (a.toBitVec[i] && b.toBitVec[i]) = false := by
    have apart : a.toBitVec &&& b.toBitVec = 0#32 := congrArg UInt32.toBitVec apart
    rw [← BitVec.getElem_and, apart, BitVec.getElem_zero]
  rw [UInt32.toBitVec_and, UInt32.toBitVec_not, BitVec.getElem_and, BitVec.getElem_not]
  revert bit
  cases a.toBitVec[i] <;> cases b.toBitVec[i] <;> decide

/-- A file that was read is read-only exactly if its mode has no write bit. -/
theorem readonly_ofStats (path : Path) (stats : Stats) :
    (ofStats path stats).attributes.readonly = (stats.mode &&& writeBits == 0) := by
  have flag : ∀ on, (Attributes.none.set Attributes.readonlyFlag on).readonly = on := by decide
  exact flag _

/-- A state that was read has the mode that its stats had. -/
theorem targetMode_ofStats (path : Path) (stats : Stats) (current : UInt32) :
    (ofStats path stats).targetMode current = stats.mode := by
  have mode : (ofStats path stats).mode.getD current = stats.mode := rfl
  rw [targetMode, readonly_ofStats, mode]
  by_cases unwritable : stats.mode &&& writeBits = 0
  · rw [if_pos (beq_iff_eq.2 unwritable)]
    exact and_not_of_and_eq_zero unwritable
  · rw [if_neg (mt beq_iff_eq.1 unwritable), if_neg (mt beq_iff_eq.1 unwritable)]

/-- Writing a state back that was read restores the mode and the times. -/
theorem written_ofStats {path : Path} {stats : Stats} (proper : stats.Proper) (current : Stats) :
    (ofStats path stats).written current =
      { current with mode := stats.mode, modified := stats.modified, accessed := stats.accessed } := by
  rw [written, targetMode_ofStats, proper.mode]
  have modified : (((ofStats path stats).modified.map Instant.carry).getD current.modified) =
      stats.modified := proper.modified
  have accessed : (((ofStats path stats).accessed.map Instant.carry).getD current.accessed) =
      stats.accessed := proper.accessed
  rw [modified, accessed]

end FileState

end Renumber
