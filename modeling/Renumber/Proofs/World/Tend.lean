import Mathlib.Data.Set.Insert
import Renumber.OperationLog
import Renumber.Proofs.Disk.Tend
import Renumber.Proofs.Run.Conduct
import Renumber.Proofs.World.Renamed
import Renumber.Proofs.World.Way

/-!
# Tending logs

Opening a log, adding to it, and replacing or removing a file of the history change nothing
but that log and the folders above it. At a slot, where a file stands that can be written,
or nothing, each of them succeeds, and makes no folder. A run that keeps logs moves files as
its moves say, wherever these are away from the logs. Moving back then restores what every
location holds that is not a log's.
-/

namespace Renumber

namespace Disk

open Renumber.Time (Instant)

/-- No folder can be made where one is. -/
theorem makeFolder_of_isFolder {d : Disk} {cwd : Location} {p : Path} (now : Instant)
    (there : d.isFolder cwd p = true) : ∃ fault, d.makeFolder now cwd p = .error fault := by
  cases made : d.makeFolder now cwd p with
  | error fault => exact ⟨fault, rfl⟩
  | ok d' =>
      obtain ⟨folder, name, slashed, last, short, free, -⟩ := makeFolder_ok made
      obtain ⟨loc, stats, found⟩ := isFolder_iff.1 there
      rw [findEntry, find_vacant last short free] at found
      cases found

end Disk

namespace World

open Disk (addressOf wayOf)
open Outcome

variable {w w' u : World} {p : Path} {loc : Location} {logs ways : Set Location}

/-- The second world is the first after something was done for logs. -/
structure Tends (logs ways : Set Location) (w w' : World) : Prop where
  cwd : w'.cwd = w.cwd
  interrupt : w'.interrupt = w.interrupt
  disk : w.disk.Tends logs ways w'.disk

theorem Tends.refl (logs ways : Set Location) (plain : w.disk.Plain) : Tends logs ways w w :=
  ⟨rfl, rfl, .refl logs ways plain⟩

theorem Tends.trans {u v w : World} (first : Tends logs ways u v) (second : Tends logs ways v w) :
    Tends logs ways u w :=
  ⟨second.cwd.trans first.cwd, second.interrupt.trans first.interrupt,
    first.disk.trans second.disk⟩

theorem Tends.mono {logs' ways' : Set Location} (tends : Tends logs ways w w')
    (more_logs : ∀ loc ∈ logs, loc ∈ logs') (more_ways : ∀ loc ∈ ways, loc ∈ ways') :
    Tends logs' ways' w w' :=
  ⟨tends.cwd, tends.interrupt, tends.disk.mono more_logs more_ways⟩

/-- Time passes. -/
theorem Tends.of_disk_eq (plain : w.disk.Plain) (disk : w'.disk = w.disk) (cwd : w'.cwd = w.cwd)
    (interrupt : w'.interrupt = w.interrupt) : Tends logs ways w w' := by
  refine ⟨cwd, interrupt, ?_⟩
  rw [disk]
  exact .refl logs ways plain

theorem Site.tends (site : w.Site p loc) (tends : Tends logs ways w w') (off : loc ∉ ways) :
    w'.Site p loc := by
  rw [Site, tends.cwd]
  exact Disk.Site.tends site tends.disk off

/-- A site whose file, if there is one, can be written, and has no other name. -/
def Slot (w : World) (p : Path) (loc : Location) : Prop :=
  w.disk.Slot w.cwd p loc

theorem Slot.tends (slot : w.Slot p loc) (tends : Tends logs ways w w') (off : loc ∉ ways) :
    w'.Slot p loc := by
  rw [Slot, tends.cwd]
  exact Disk.Slot.tends slot tends.disk off

/-- Making folders leaves a slot where a file stands. -/
theorem Slot.grows (slot : w.Slot p loc) (plain : w.disk.Plain) (grows : w.Grows w')
    (there : w.files loc ≠ none) : w'.Slot p loc := by
  obtain ⟨id, stands⟩ := Option.ne_none_iff_exists'.1 there
  have still : w'.disk.fileAt? loc = some id := (grows.disk.fileAt? loc).trans stands
  rw [Slot, grows.cwd]
  refine ⟨Disk.Site.of_keeps slot.toSite grows.disk.keeps (grows.disk.unlinked plain.unlinked)
    fun folder => ?_, fun id' stands' => ?_, slot.lone.of_fileAt? grows.disk.fileAt?⟩
  · rw [Disk.fileAt?_eq_shape.1 still] at folder
    cases folder
  · rw [grows.disk.fileAt?] at stands'
    rw [Disk.checkAccess_congr (Disk.modeOf?_congr (grows.disk.file id'))]
    exact slot.writable id' stands'

/-- The place of a path is its address. -/
theorem Slot.address (slot : w.Slot p loc) (plain : w.disk.Plain) : loc = addressOf w.cwd p :=
  (Disk.addressOf_of_place plain.unlinked slot.place).symm

/-! ## Folders above a log -/

theorem makeParent_tends (plain : w.disk.Plain) (p : Path) :
    Tends ∅ {loc | loc ∈ wayOf w.cwd p} w ((makeParent p).run.run w).2 := by
  have grows := makeParent_growsToward p w
  exact ⟨grows.grows.cwd, grows.grows.interrupt,
    .of_widens plain grows.grows.disk (grows.new plain.unlinked)⟩

/-- A folder that is there is not made again. -/
theorem run_ensureFolder (there : w.isFolder p = true) :
    (ensureFolder p).run.run w = (.ok (), { w with clock := w.clock.after clockStep }) := by
  obtain ⟨fault, failed⟩ := Disk.makeFolder_of_isFolder w.clock there
  have still : ({ w with clock := w.clock.after clockStep } : World).isFolder p = true := there
  rw [ensureFolder, run_tryCatch, run_act]
  simp only [Deed.doOn, failed, run_bind, run_get, still, ↓reduceIte]
  rfl

/-- There is a folder above the path, or none is needed. -/
def HasFolder (w : World) (p : Path) : Prop :=
  ∀ q, p.parent? = some q → q.isEmpty = true ∨ isGiven q = true ∨ w.isFolder q = true

/-- Nothing is made above a path that has its folder. -/
theorem run_makeParent_of_hasFolder (above : w.HasFolder p) :
    ∃ clock, (makeParent p).run.run w = (.ok (), { w with clock }) := by
  rw [makeParent]
  split
  · next q parent =>
    rw [run_ite]
    split
    · exact ⟨w.clock, rfl⟩
    · next some_byte =>
      by_cases given : isGiven q = true
      · refine ⟨w.clock, ?_⟩
        rw [makeFolders]
        cases ancestors q <;> rw [makeFoldersFrom, run_ite, if_pos given] <;> rfl
      · have there : w.isFolder q = true :=
          ((above q parent).resolve_left some_byte).resolve_left given
        rw [makeFolders]
        cases ancestors q with
        | nil =>
            rw [makeFoldersFrom, run_ite, if_neg given]
            exact ⟨_, run_ensureFolder there⟩
        | cons above rest =>
            rw [makeFoldersFrom, run_ite, if_neg given, run_tryCatch, run_ensureFolder there]
            exact ⟨_, rfl⟩
  · exact ⟨w.clock, rfl⟩

/-- A path that has a place has its folder. -/
theorem hasFolder_of_place (place : w.place? p = some loc) : w.HasFolder p := by
  obtain ⟨folder, name, last, -, -⟩ := Disk.place?_eq_some.1 place
  exact fun q parent => (Disk.isFolder_parent last parent).imp_right .inr

/-- Nothing is made above a path that has a place. -/
theorem run_makeParent_of_place (place : w.place? p = some loc) :
    ∃ clock, (makeParent p).run.run w = (.ok (), { w with clock }) :=
  run_makeParent_of_hasFolder (hasFolder_of_place place)

theorem isFolder_of_ensureFolder {u : World} (made : (ensureFolder p).run.run w = (.ok (), u)) :
    u.isFolder p = true := by
  rw [ensureFolder, run_tryCatch, run_act] at made
  cases acted : (Deed.makeFolder p).doOn w.disk w.clock w.cwd with
  | ok disk =>
      rw [acted] at made
      cases made
      have widens : w.disk.Widens disk := Disk.makeFolder_widens acted
      obtain ⟨folder, name, slashed, last, short, -, rfl⟩ := Disk.makeFolder_ok acted
      obtain ⟨stats, there⟩ := Disk.shape?_eq_folder.1
        ((Disk.shape?_madeFolder w.disk w.clock folder name _).trans (if_pos rfl))
      have found : Disk.find _ w.cwd true p = _ :=
        Disk.find_folder (Disk.findLast_keeps widens.keeps last) short there
      exact Disk.isFolder_iff.2 ⟨_, stats, by
        rw [Disk.findEntry, afterDeed_disk, afterDeed_cwd, found]; rfl⟩
  | error fault =>
      rw [acted] at made
      simp only [run_bind, run_get, run_ite] at made
      split at made
      · next there =>
        cases made
        simpa using there
      · cases made

/-- When the folders above a path were made, it has its folder. -/
theorem hasFolder_of_makeParent {u : World} (made : (makeParent p).run.run w = (.ok (), u)) :
    u.HasFolder p := by
  intro q parent
  rw [makeParent, parent] at made
  dsimp only at made
  rw [run_ite] at made
  split at made
  · next empty => exact .inl empty
  · right
    by_cases given : isGiven q = true
    · exact .inl given
    · right
      rw [makeFolders] at made
      cases above : ancestors q with
      | nil =>
          rw [above, makeFoldersFrom, run_ite, if_neg given] at made
          exact isFolder_of_ensureFolder made
      | cons r rest =>
          rw [above, makeFoldersFrom, run_ite, if_neg given, run_tryCatch] at made
          split at made
          · next ensured =>
            cases made
            exact isFolder_of_ensureFolder ensured
          · next fault v failed =>
            rw [run_ite] at made
            split at made
            · obtain ⟨_, v', -, ensured⟩ := bind_eq_ok made
              exact isFolder_of_ensureFolder ensured
            · cases made

/-! ## Writing -/

/-- The file at a location has these bytes. -/
def Holds (w : World) (loc : Location) (content : List UInt8) : Prop :=
  ∃ id data, w.files loc = some id ∧ w.disk.file? id = some data ∧ data.content = content

theorem Holds.tends {content : List UInt8} (holds : w.Holds loc content)
    (tends : Tends logs ways w w') (off : loc ∉ logs) : w'.Holds loc content := by
  obtain ⟨id, data, there, known, same⟩ := holds
  refine ⟨id, data, (tends.disk.files loc off).trans there, ?_, same⟩
  rw [tends.disk.data loc id off there, known]

/-- What is written stands at a slot, unless it has another name. -/
theorem act_write_ok {content : List UInt8} (plain : w.disk.Plain)
    (working : w.disk.shape? w.cwd = some .folder) (lone : w.disk.Lone (addressOf w.cwd p))
    (written : (act (.write p content)).run.run w = (.ok (), w')) :
    ∃ loc, w.Slot p loc ∧ Tends {loc} ∅ w w' ∧ w'.Holds loc content := by
  obtain ⟨d, id, opened, rfl⟩ := act_write_eq_ok written
  obtain ⟨loc, slot, opens⟩ := Disk.openFile_ok plain working lone opened
  have tends := opens.tends plain
  have there := opens.there
  have still_lone := tends.lone loc slot.lone
  obtain ⟨data, known⟩ := Option.isSome_iff_exists.1 (tends.plain.known loc id there).2
  refine ⟨loc, slot, ⟨rfl, rfl, tends.trans (.writeFile tends.plain still_lone there w.clock content)⟩,
    id, _, ?_, Disk.file?_writeFile known w.clock content, rfl⟩
  exact (Disk.fileAt?_writeFile ..).trans there

theorem act_write_of_slot (slot : w.Slot p loc) (content : List UInt8) :
    ∃ w', (act (.write p content)).run.run w = (.ok (), w') := by
  obtain ⟨d, id, opened, -⟩ := Disk.openFile_of_slot slot w.clock
  rw [run_act, Deed.doOn, opened]
  exact ⟨_, rfl⟩

/-! ## Opening a log and adding to it -/

theorem run_openAt (p : Path) (w : World) :
    (OperationLog.openAt p).run.run w = match (makeParent p).run.run w with
      | (.error fault, u) => (.error fault, u)
      | (.ok _, u) => match (act (.openFile p)).run.run u with
        | (.error fault, v) => (.error fault, v)
        | (.ok _, v) => ((v.disk.fileNumber v.cwd p).map OperationLog.mk, v) := by
  rw [OperationLog.openAt, run_bind]
  rcases (makeParent p).run.run w with ⟨_ | _, u⟩
  · rfl
  · simp only [run_bind]
    rcases (act (.openFile p)).run.run u with ⟨_ | _, v⟩
    · rfl
    · simp only [run_ask]
      cases v.disk.fileNumber v.cwd p <;> rfl

theorem act_openFile_ok (plain : w.disk.Plain) (working : w.disk.shape? w.cwd = some .folder)
    (lone : w.disk.Lone (addressOf w.cwd p))
    (opened : (act (.openFile p)).run.run w = (.ok (), w')) :
    ∃ loc id, w.Slot p loc ∧ Tends {loc} ∅ w w' ∧ w'.files loc = some id := by
  obtain ⟨d, id, did, rfl⟩ := act_openFile_eq_ok opened
  obtain ⟨loc, slot, opens⟩ := Disk.openFile_ok plain working lone did
  exact ⟨loc, id, slot, ⟨rfl, rfl, opens.tends plain⟩, opens.there⟩

theorem act_openFile_of_slot (slot : w.Slot p loc) :
    ∃ w', (act (.openFile p)).run.run w = (.ok (), w') := by
  obtain ⟨d, id, opened, -⟩ := Disk.openFile_of_slot slot w.clock
  rw [run_act, Deed.doOn, opened]
  exact ⟨_, rfl⟩

/-- The number of the file at a place. -/
theorem fileNumber_of_files {id : Nat} (place : w.place? p = some loc) (there : w.files loc = some id) :
    w.disk.fileNumber w.cwd p = .ok id := by
  rw [Disk.fileNumber, Disk.findEntry_of_fileAt? place there true]
  rfl

/-- An operation log that was opened stands at a slot, and only the folders above it are
new besides. -/
theorem openAt_ok {log : OperationLog} (plain : w.disk.Plain)
    (working : w.disk.shape? w.cwd = some .folder) (lone : w.disk.Lone (addressOf w.cwd p))
    (opened : (OperationLog.openAt p).run.run w = (.ok log, w')) :
    Tends {addressOf w.cwd p} {loc | loc ∈ wayOf w.cwd p} w w' ∧ w'.Slot p (addressOf w.cwd p) ∧
      w'.files (addressOf w.cwd p) = some log.file := by
  have above := makeParent_tends plain p
  rw [run_openAt] at opened
  generalize (makeParent p).run.run w = made at *
  obtain ⟨_ | _, u⟩ := made
  · cases opened
  · simp only at above opened
    have working' : u.disk.shape? u.cwd = some .folder := by
      rw [above.cwd]
      exact above.disk.keeps.folder _ working
    have lone' : u.disk.Lone (addressOf u.cwd p) := by
      rw [above.cwd]
      exact above.disk.lone _ lone
    cases acted : (act (.openFile p)).run.run u with
    | mk result v =>
        rw [acted] at opened
        cases result with
        | error fault => cases opened
        | ok _ =>
            obtain ⟨loc, id, slot, tends, there⟩ :=
              act_openFile_ok above.disk.plain working' lone' acted
            have slot' := slot.tends tends (Set.notMem_empty loc)
            have address : loc = addressOf w.cwd p := by
              rw [slot.address above.disk.plain, above.cwd]
            subst address
            simp only [fileNumber_of_files slot'.place there] at opened
            cases opened
            refine ⟨?_, slot', there⟩
            exact (above.mono (by simp) (fun _ on => on)).trans (tends.mono (by simp) (by simp))

/-- At a slot an operation log can be opened, and no folder is made. -/
theorem openAt_of_slot (plain : w.disk.Plain) (working : w.disk.shape? w.cwd = some .folder)
    (slot : w.Slot p loc) :
    ∃ log w', (OperationLog.openAt p).run.run w = (.ok log, w') ∧ Tends {loc} ∅ w w' ∧
      w'.files loc = some log.file := by
  obtain ⟨clock, above⟩ := run_makeParent_of_place slot.place
  have slot' : ({ w with clock } : World).Slot p loc := slot
  obtain ⟨v, acted⟩ := act_openFile_of_slot slot'
  have lone : w.disk.Lone (addressOf w.cwd p) := slot.address plain ▸ slot.lone
  obtain ⟨loc', id, slot'', tends, there⟩ :=
    act_openFile_ok (w := { w with clock }) plain working lone acted
  have same : loc' = loc := Option.some.inj (slot''.place.symm.trans slot'.place)
  subst same
  have place := (slot''.tends tends (Set.notMem_empty loc')).place
  refine ⟨⟨id⟩, v, ?_, ⟨tends.cwd, tends.interrupt, tends.disk⟩, there⟩
  rw [run_openAt, above]
  simp only [acted, fileNumber_of_files place there]
  rfl

/-- Entries of a log change the file at the log's location only. -/
theorem OnlyLogged.tends {id : Nat} (logged : OnlyLogged {id} w w') (plain : w.disk.Plain)
    (lone : w.disk.Lone loc) (there : w.files loc = some id) : Tends {loc} ∅ w w' where
  cwd := logged.cwd
  interrupt := logged.interrupt
  disk :=
    { plain := plain.of_entries logged.get? logged.fresh logged.mode
      keeps := logged.sameShape.keeps
      folder := fun loc _ folder => logged.sameShape loc ▸ folder
      files := fun loc _ => congrFun logged.files loc
      data := fun loc' id' off there' => logged.data id' fun same => off (by
        rw [Set.mem_singleton_iff] at same ⊢
        subst same
        exact lone _ _ there there')
      allows := fun bit _ loc allowed id' there' => by
        have before : w.disk.fileAt? loc = some id' := (congrFun logged.files loc).symm.trans there'
        rw [Disk.checkAccess_congr (logged.mode id')]
        exact allowed id' before
      lone := fun loc lone => lone.of_fileAt? (congrFun logged.files) }

/-! ## Removing and reading -/

theorem removeFile_ok (plain : w.disk.Plain) (place : w.place? p = some loc)
    (removed : (removeFile p).run.run w = (.ok (), w')) :
    Tends {loc} ∅ w w' ∧ w'.disk.get? loc = none := by
  obtain ⟨disk, did, rfl⟩ := act_eq_ok removed
  obtain ⟨id, there⟩ := Disk.removeFile_ok plain did place
  obtain ⟨folder, name, rfl, same⟩ := Disk.removeFile_of_place place there w.clock
  have gone : disk = (w.disk.drop (folder ++ [name])).stampFolder w.clock folder :=
    Except.ok.inj (did.symm.trans same)
  subst gone
  refine ⟨⟨rfl, rfl, .removed plain w.clock there⟩, Disk.shape?_eq_none.1 ?_⟩
  exact (Disk.shape?_removed ..).trans (if_pos rfl)

/-- The file at a place can be removed. -/
theorem removeFile_of_place {id : Nat} (place : w.place? p = some loc)
    (there : w.files loc = some id) : ∃ w', (removeFile p).run.run w = (.ok (), w') := by
  obtain ⟨folder, name, -, same⟩ := Disk.removeFile_of_place place there w.clock
  have done : (Deed.remove p).doOn w.disk w.clock w.cwd =
      .ok ((w.disk.drop (folder ++ [name])).stampFolder w.clock folder) := same
  rw [removeFile, run_act, done]
  exact ⟨_, rfl⟩

/-- What a file holds can be read if that is allowed. -/
theorem readFile_of_holds {content : List UInt8} (place : w.place? p = some loc)
    (holds : w.Holds loc content) (readable : w.disk.Allows Disk.ownerRead loc) :
    (readFile p).run.run w = (.ok content, w) := by
  obtain ⟨id, data, there, known, rfl⟩ := holds
  rw [readFile, run_ask, Disk.readFile, Disk.findEntry_of_fileAt? place there true]
  simp only [bind, Except.bind, readable id there, known]
  rfl

/-! ## Moves away from the logs -/

section

variable {place : Path → Option Location} {moves : List (Path × Path)} {v : World}

/-- The data of the file at a location. -/
def dataAt? (w : World) (loc : Location) : Option FileData :=
  (w.files loc).bind w.disk.file?

theorem fileData?_of_site (site : w.Site p loc) : w.fileData? p = w.dataAt? loc :=
  fileData?_of_flatAt site.flatAt site.place

/-- Away from the logs, files moved and kept their data. -/
structure Shifts (logs : Set Location) (place : Path → Option Location)
    (moves : List (Path × Path)) (w w' : World) : Prop where
  files : ∃ after, FileMap.run place moves w.files = some after ∧
    FileMap.AgreeOff logs after w'.files
  data : ∀ loc id, loc ∉ logs → w.files loc = some id → w'.disk.file? id = w.disk.file? id

/-- What is tended before and after a run of moves away from the logs makes no difference
to the other files, and neither does a log that is open meanwhile. -/
theorem Shifts.of_stands {open_ : Set Nat} {after : FileMap} (before : Tends logs ways u v)
    (stands : StandsFor open_ v w after) (moved : FileMap.run place moves v.files = some after)
    (off : FileMap.MovesOff place logs moves)
    (known : ∀ id ∈ open_, ∃ loc ∈ logs, v.files loc = some id ∧ v.disk.Lone loc) (later : Tends logs ways w w') :
    Shifts logs place moves u w' where
  files := by
    obtain ⟨other, run, agree, -⟩ :=
      FileMap.run_frame moved off (FileMap.AgreeOff.symm before.disk.files)
    refine ⟨other, run, ?_⟩
    have at_end : FileMap.AgreeOff logs after w'.files := stands.files ▸ later.disk.files
    exact agree.symm.trans at_end
  data loc id off_loc there := by
    have there_v : v.files loc = some id := (before.disk.files loc off_loc).trans there
    have closed : id ∉ open_ := by
      intro opened
      obtain ⟨loc', in_logs, there', lone⟩ := known id opened
      have same := lone _ _ there' there_v
      subst same
      exact off_loc in_logs
    -- The file is somewhere away from the logs after the moves as well.
    obtain ⟨loc', off_loc', there_w⟩ :=
      FileMap.run_origin (FileMap.run_back moved) off.reverse_swap there_v off_loc
    rw [← stands.files] at there_w
    calc w'.disk.file? id = w.disk.file? id := later.disk.data loc' id off_loc' there_w
      _ = v.disk.file? id := stands.shuffles.data id closed
      _ = u.disk.file? id := before.disk.data loc id off_loc there

/-- Files that moved and moved back hold what they held. -/
theorem Shifts.back (first : Shifts logs place moves u v) (off : FileMap.MovesOff place logs moves)
    (second : Shifts logs place (moves.reverse.map Prod.swap) v w) (off_loc : loc ∉ logs) :
    w.dataAt? loc = u.dataAt? loc := by
  obtain ⟨after, moved, agree⟩ := first.files
  obtain ⟨after', moved', agree'⟩ := second.files
  have restored := FileMap.run_back moved
  obtain ⟨other, run, agree_other, -⟩ := FileMap.run_frame restored off.reverse_swap agree
  have same : other = after' := Option.some.inj (run.symm.trans moved')
  subst same
  have files : w.files loc = u.files loc := by
    rw [agree' loc off_loc, agree_other loc off_loc]
  rw [dataAt?, dataAt?, files]
  cases there : u.files loc with
  | none => rfl
  | some id =>
      obtain ⟨loc', off_loc', there'⟩ :=
        FileMap.run_origin restored off.reverse_swap there off_loc
      have there_v : v.files loc' = some id := (agree loc' off_loc').trans there'
      calc w.disk.file? id = v.disk.file? id := second.data loc' id off_loc' there_v
        _ = u.disk.file? id := first.data loc id off_loc there

/-- After moves that were made, the moves back are possible. -/
theorem Shifts.possible_back (shifts : Shifts logs place moves u v)
    (off : FileMap.MovesOff place logs moves) :
    ∃ after, FileMap.run place (moves.reverse.map Prod.swap) v.files = some after := by
  obtain ⟨after, moved, agree⟩ := shifts.files
  obtain ⟨other, run, -, -⟩ :=
    FileMap.run_frame (FileMap.run_back moved) off.reverse_swap agree
  exact ⟨other, run⟩

/-- A file that moved, or did not, holds what it held. -/
theorem Shifts.dataAt? {after : FileMap} {source target : Location}
    (shifts : Shifts logs place moves u v) (moved : FileMap.run place moves u.files = some after)
    (brought : after target = u.files source) (off_source : source ∉ logs)
    (off_target : target ∉ logs) : v.dataAt? target = u.dataAt? source := by
  obtain ⟨after', moved', agree⟩ := shifts.files
  have same : after' = after := Option.some.inj (moved'.symm.trans moved)
  subst same
  rw [World.dataAt?, World.dataAt?, agree target off_target, brought]
  cases there : u.files source with
  | none => rfl
  | some id => exact shifts.data source id off_source there

end

end World

end Renumber
