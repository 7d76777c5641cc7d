import Renumber.Proofs.History.Stored
import Renumber.Proofs.Request.Run
import Renumber.Proofs.Run.Whole
import Renumber.Proofs.World.Tend

/-!
# Worlds that are ready for a request

A request about the history needs its logs: the world is ready for it when each of them
has a slot. That stays so while logs are tended and files move elsewhere, so one request
leaves the world ready for the next one.
-/

namespace Renumber

open Disk (addressOf wayOf)
open Outcome
open World (StandsFor Tends)

/-! ## Moves on a plain disk -/

/-- A disk stays plain when files move. -/
theorem World.StandsFor.plain {open_ : Set Nat} {w w' : World} {place : Path → Option Location}
    {moves : List (Path × Path)} {after : FileMap} (stands : StandsFor open_ w w' after)
    (plain : w.disk.Plain) (moved : FileMap.run place moves w.files = some after) :
    w'.disk.Plain where
  tree := stands.tree
  unlinked loc target there := by
    have link := stands.shuffles.ways.2.link loc target (Disk.shape?_eq_link.2 there)
    exact plain.unlinked loc target (Disk.shape?_eq_link.1 link)
  known loc id there := by
    have anywhere : FileMap.MovesOff place ∅ moves := fun _ _ loc _ => Set.notMem_empty loc
    have there' : after loc = some id := (congrFun stands.files loc).symm.trans there
    obtain ⟨loc', -, stood⟩ := FileMap.run_origin moved anywhere there' (Set.notMem_empty loc)
    rw [stands.shuffles.fresh, ← Disk.isSome_modeOf?, stands.shuffles.mode, Disk.isSome_modeOf?]
    exact plain.known loc' id stood

/-- What stands at locations that no move has to do with stays. -/
theorem FileMap.run_aside {place : Path → Option Location} {aside : Set Location}
    {moves : List (Path × Path)} {files files' : FileMap} {loc : Location}
    (moved : run place moves files = some files') (off : MovesOff place aside moves)
    (inside : loc ∈ aside) : files' loc = files loc := by
  obtain ⟨other, run_other, -, left⟩ := run_frame moved off (fun _ _ => rfl)
  have same : other = files' := Option.some.inj (run_other.symm.trans moved)
  subst same
  exact left loc inside

theorem World.Site.shuffles {open_ : Set Nat} {w w' : World} {p : Path} {loc : Location}
    (site : w.Site p loc) (plain : w.disk.Plain) (shuffles : Shuffles open_ w w') :
    w'.Site p loc := by
  rw [Site, shuffles.cwd]
  refine Disk.Site.of_keeps site shuffles.ways.1 (fun at_loc target there => ?_)
    (shuffles.ways.2.folder loc)
  have link := shuffles.ways.2.link at_loc target (Disk.shape?_eq_link.2 there)
  exact plain.unlinked at_loc target (Disk.shape?_eq_link.1 link)

theorem World.StandsFor.allows {open_ : Set Nat} {w w' : World} {place : Path → Option Location}
    {aside : Set Location} {moves : List (Path × Path)} {after : FileMap} {loc : Location}
    {bit : UInt32} (stands : StandsFor open_ w w' after)
    (moved : FileMap.run place moves w.files = some after)
    (off : FileMap.MovesOff place aside moves) (inside : loc ∈ aside)
    (allowed : w.disk.Allows bit loc) : w'.disk.Allows bit loc := by
  intro id there
  have stood : w.disk.fileAt? loc = some id := by
    have same := FileMap.run_aside moved off inside
    rw [← stands.files] at same
    exact same.symm.trans there
  rw [Disk.checkAccess_congr (stands.shuffles.mode id)]
  exact allowed id stood

/-- A file that has one name still has one when others move. -/
theorem World.StandsFor.lone {open_ : Set Nat} {w w' : World} {place : Path → Option Location}
    {aside : Set Location} {moves : List (Path × Path)} {after : FileMap} {loc : Location}
    (stands : StandsFor open_ w w' after) (moved : FileMap.run place moves w.files = some after)
    (off : FileMap.MovesOff place aside moves) (inside : loc ∈ aside) (lone : w.disk.Lone loc) :
    w'.disk.Lone loc := by
  intro other id there there'
  have files : ∀ {at_loc}, w'.disk.fileAt? at_loc = some id → after at_loc = some id :=
    fun standing => (congrFun stands.files _).symm.trans standing
  have stood : w.files loc = some id := (FileMap.run_aside moved off inside).symm.trans (files there)
  by_cases aside_too : other ∈ aside
  · exact lone other id stood ((FileMap.run_aside moved off aside_too).symm.trans (files there'))
  · -- The file at the other location would have come from a location that is not aside either.
    obtain ⟨origin, off_origin, stood'⟩ := FileMap.run_origin moved off (files there') aside_too
    rw [lone origin id stood stood'] at off_origin
    exact absurd inside off_origin

/-- A slot stays one when files move elsewhere. -/
theorem World.StandsFor.slot {open_ : Set Nat} {w w' : World} {place : Path → Option Location}
    {aside : Set Location} {moves : List (Path × Path)} {after : FileMap} {p : Path} {loc : Location}
    (stands : StandsFor open_ w w' after) (plain : w.disk.Plain)
    (moved : FileMap.run place moves w.files = some after)
    (off : FileMap.MovesOff place aside moves) (inside : loc ∈ aside) (slot : w.Slot p loc) :
    w'.Slot p loc := by
  have site : w.Site p loc := slot.toSite
  exact ⟨site.shuffles plain stands.shuffles, stands.allows moved off inside slot.writable,
    stands.lone moved off inside slot.lone⟩

/-! ## The logs of a request -/

namespace Surroundings

variable {σ : Type} {env : Surroundings σ} {w w' : World} {p : Path} {loc : Location} {b : Batch}

/-- The paths of the logs. -/
def logPaths (env : Surroundings σ) : List Path :=
  env.undoLog :: UndoLog.redoPath env.undoLog :: env.operationLog.toList

/-- The locations of the logs. -/
def logPlaces (env : Surroundings σ) (cwd : Location) : Set Location :=
  {loc | ∃ p ∈ env.logPaths, addressOf cwd p = loc}

/-- The locations on the ways to the logs, their own included. -/
def logWays (env : Surroundings σ) (cwd : Location) : Set Location :=
  {loc | ∃ p ∈ env.logPaths, loc ∈ wayOf cwd p}

instance (env : Surroundings σ) (cwd loc : Location) : Decidable (loc ∈ env.logWays cwd) :=
  inferInstanceAs (Decidable (∃ p ∈ env.logPaths, loc ∈ wayOf cwd p))

theorem mem_logPlaces (member : p ∈ env.logPaths) (cwd : Location) :
    addressOf cwd p ∈ env.logPlaces cwd :=
  ⟨p, member, rfl⟩

theorem logPlaces_subset (env : Surroundings σ) (cwd : Location) :
    ∀ loc ∈ env.logPlaces cwd, loc ∈ env.logWays cwd := by
  rintro loc ⟨p, member, rfl⟩
  exact ⟨p, member, Disk.addressOf_mem_wayOf cwd p⟩

theorem undoLog_mem (env : Surroundings σ) : env.undoLog ∈ env.logPaths :=
  List.mem_cons_self

theorem redoPath_mem (env : Surroundings σ) : UndoLog.redoPath env.undoLog ∈ env.logPaths :=
  List.mem_cons_of_mem _ List.mem_cons_self

/-- The logs of a history are among the logs. -/
theorem historyLogs_subset (env : Surroundings σ) (cwd : Location) :
    ∀ loc ∈ ({addressOf cwd env.undoLog, addressOf cwd (UndoLog.redoPath env.undoLog)} : Set Location),
      loc ∈ env.logPlaces cwd := by
  rintro loc (rfl | rfl)
  · exact mem_logPlaces env.undoLog_mem cwd
  · exact mem_logPlaces env.redoPath_mem cwd

theorem operationLog_mem (log : env.operationLog = some p) : p ∈ env.logPaths :=
  List.mem_cons_of_mem _ (List.mem_cons_of_mem _ (by rw [log]; exact List.mem_singleton.2 rfl))

/-! ## Paths away from the logs -/

/-- The path has a site that is neither a log's nor above one. -/
def Clear (env : Surroundings σ) (w : World) (p : Path) : Prop :=
  ∃ loc, w.Site p loc ∧ loc ∉ env.logWays w.cwd

/-- What is done for the logs, and which files move, does not matter to the path. -/
def Steady (env : Surroundings σ) (w w' : World) : Prop :=
  w'.cwd = w.cwd ∧ ∀ p, env.Clear w p → env.Clear w' p ∧ w'.place? p = w.place? p

theorem Steady.trans {u v w : World} (first : env.Steady u v) (second : env.Steady v w) :
    env.Steady u w := by
  refine ⟨second.1.trans first.1, fun p clear => ?_⟩
  obtain ⟨clear_v, place_v⟩ := first.2 p clear
  obtain ⟨clear_w, place_w⟩ := second.2 p clear_v
  exact ⟨clear_w, place_w.trans place_v⟩

theorem steady_of_site (cwd : w'.cwd = w.cwd)
    (site : ∀ p loc, w.Site p loc → loc ∉ env.logWays w.cwd → w'.Site p loc) : env.Steady w w' := by
  refine ⟨cwd, ?_⟩
  rintro p ⟨loc, here, off⟩
  have still := site p loc here off
  refine ⟨⟨loc, still, ?_⟩, still.place.trans here.place.symm⟩
  rwa [cwd]

theorem steady_of_tends (tends : Tends (env.logPlaces w.cwd) (env.logWays w.cwd) w w') :
    env.Steady w w' :=
  steady_of_site tends.cwd fun _ _ site off => site.tends tends off

theorem steady_of_shuffles {open_ : Set Nat} (plain : w.disk.Plain)
    (shuffles : World.Shuffles open_ w w') : env.Steady w w' :=
  steady_of_site shuffles.cwd fun _ _ site _ => site.shuffles plain shuffles

theorem Clear.flatAt (clear : env.Clear w p) : w.FlatAt p := by
  obtain ⟨loc, site, -⟩ := clear
  exact site.flatAt

theorem Clear.off (clear : env.Clear w p) (place : w.place? p = some loc) :
    loc ∉ env.logPlaces w.cwd := by
  obtain ⟨loc', site, off⟩ := clear
  have same : loc' = loc := Option.some.inj (site.place.symm.trans place)
  subst same
  exact fun inside => off (env.logPlaces_subset w.cwd _ inside)

/-- Moves between such paths are away from the logs. -/
theorem movesOff {moves : List (Path × Path)}
    (clear : ∀ m ∈ moves, env.Clear w m.1 ∧ env.Clear w m.2) :
    FileMap.MovesOff w.place? (env.logPlaces w.cwd) moves := by
  intro m member loc at_m
  obtain ⟨source, target⟩ := clear m member
  obtain at_source | at_target := at_m
  · exact source.off at_source
  · exact target.off at_target

/-- Moves away from the logs that are possible stay so while the logs are tended. -/
theorem exists_run_of_tends {moves : List (Path × Path)} {files : FileMap}
    (tends : Tends (env.logPlaces w.cwd) (env.logWays w.cwd) w w')
    (clear : ∀ m ∈ moves, env.Clear w m.1 ∧ env.Clear w m.2)
    (possible : FileMap.run w.place? moves w.files = some files) :
    ∃ after, FileMap.run w.place? moves w'.files = some after ∧
      FileMap.run w'.place? moves w'.files = some after := by
  obtain ⟨after, run, -, -⟩ := FileMap.run_frame possible (movesOff clear) tends.disk.files
  refine ⟨after, run, ?_⟩
  rw [← run]
  refine FileMap.run_congr (fun m member => ?_) _
  obtain ⟨source, target⟩ := clear m member
  exact ⟨((steady_of_tends tends).2 _ source).2, ((steady_of_tends tends).2 _ target).2⟩

/-- Moves back go between the same paths. -/
theorem clear_back {moves : List (Path × Path)}
    (clear : ∀ m ∈ moves, env.Clear w m.1 ∧ env.Clear w m.2) :
    ∀ m ∈ moves.reverse.map Prod.swap, env.Clear w m.1 ∧ env.Clear w m.2 := by
  intro m member
  obtain ⟨n, in_moves, rfl⟩ := List.mem_map.1 member
  exact (clear n (List.mem_reverse.1 in_moves)).symm

/-! ## Ready worlds -/

/-- Every log has a slot, and the history can be read. -/
structure Ready (env : Surroundings σ) (w : World) : Prop where
  plain : w.disk.Plain
  working : w.disk.shape? w.cwd = some .folder
  slot : ∀ p ∈ env.logPaths, w.Slot p (addressOf w.cwd p)
  undoable : w.disk.Allows Disk.ownerRead (addressOf w.cwd env.undoLog)
  redoable : w.disk.Allows Disk.ownerRead (addressOf w.cwd (UndoLog.redoPath env.undoLog))
  apart : addressOf w.cwd (UndoLog.redoPath env.undoLog) ≠ addressOf w.cwd env.undoLog

theorem Ready.tends (ready : env.Ready w) (tends : Tends (env.logPlaces w.cwd) ∅ w w') :
    env.Ready w' where
  plain := tends.disk.plain
  working := by
    rw [tends.cwd]
    exact tends.disk.keeps.folder _ ready.working
  slot p member := by
    rw [tends.cwd]
    exact (ready.slot p member).tends tends (Set.notMem_empty _)
  undoable := by
    rw [tends.cwd]
    exact tends.disk.allows _ (by decide) _ ready.undoable
  redoable := by
    rw [tends.cwd]
    exact tends.disk.allows _ (by decide) _ ready.redoable
  apart := by
    rw [tends.cwd]
    exact ready.apart

theorem Ready.stands {open_ : Set Nat} {place : Path → Option Location}
    {moves : List (Path × Path)} {after : FileMap} (ready : env.Ready w)
    (stands : StandsFor open_ w w' after) (moved : FileMap.run place moves w.files = some after)
    (off : FileMap.MovesOff place (env.logPlaces w.cwd) moves) : env.Ready w' where
  plain := stands.plain ready.plain moved
  working := by
    rw [stands.shuffles.cwd]
    exact stands.shuffles.ways.1.folder _ ready.working
  slot p member := by
    rw [stands.shuffles.cwd]
    exact stands.slot ready.plain moved off (mem_logPlaces member w.cwd) (ready.slot p member)
  undoable := by
    rw [stands.shuffles.cwd]
    exact stands.allows moved off (mem_logPlaces env.undoLog_mem w.cwd) ready.undoable
  redoable := by
    rw [stands.shuffles.cwd]
    exact stands.allows moved off (mem_logPlaces env.redoPath_mem w.cwd) ready.redoable
  apart := by
    rw [stands.shuffles.cwd]
    exact ready.apart

/-! ## Beginning and ending runs -/

/-- A conduct for which the log, if there is one, was opened. -/
structure Opened (env : Surroundings σ) (c : Conduct σ) (w : World) : Prop where
  heeds : c.heedsStop = env.heedsStop
  log : ∀ log, c.log = some log →
    ∃ loc ∈ env.logPlaces w.cwd, w.files loc = some log.file ∧ w.disk.Lone loc

/-- The number of the file that is open. -/
def openFiles (c : Conduct σ) : Set Nat :=
  {id | ∃ log, c.log = some log ∧ log.file = id}

theorem Opened.known {c : Conduct σ} (opened : env.Opened c w) :
    ∀ id ∈ openFiles c, ∃ loc ∈ env.logPlaces w.cwd, w.files loc = some id ∧ w.disk.Lone loc := by
  rintro id ⟨log, same, rfl⟩
  exact opened.log log same

theorem Opened.free {c : Conduct σ} (opened : env.Opened c w)
    (unstopped : env.heedsStop = false ∨ w.interrupt = none) : c.Free (openFiles c) w where
  log log same := ⟨log, same, rfl⟩
  unstopped := by
    rw [opened.heeds]
    exact unstopped

/-- An entry goes to the log only. -/
theorem note_tends {c : Conduct σ} (opened : env.Opened c w) (plain : w.disk.Plain)
    (message : String) : Tends (env.logPlaces w.cwd) ∅ w (c.note message w) ∧
      env.Opened c (c.note message w) := by
  cases log : c.log with
  | none =>
      have same : c.note message w = w := by rw [Conduct.note, log]
      rw [same]
      exact ⟨.refl _ _ plain, opened⟩
  | some log' =>
      obtain ⟨loc, in_logs, there, lone⟩ := opened.log log' log
      have logged : World.OnlyLogged {log'.file} w (c.note message w) := by
        refine c.note_onlyLogged (fun other same => ?_) message w
        rw [log] at same
        cases same
        exact Set.mem_singleton _
      have tends := logged.tends plain lone there
      refine ⟨tends.mono (fun at_loc same => ?_) (by simp), opened.heeds, fun other same => ?_⟩
      · rw [Set.mem_singleton_iff] at same
        subst same
        exact in_logs
      · rw [log] at same
        cases same
        rw [logged.cwd]
        exact ⟨loc, in_logs, (congrFun logged.files loc).trans there, tends.disk.lone loc lone⟩

/-- In a ready world a run begins, and changes no more than its log. -/
theorem Ready.beginRun {s : Sitting σ} (ready : env.Ready s.world) (message : String) :
    ∃ c w, (env.beginRun message).run.run s = (.ok c, { s with world := w, report := {} }) ∧
      Tends (env.logPlaces s.world.cwd) ∅ s.world w ∧ env.Opened c w := by
  rw [run_beginRun, openLog]
  cases log : env.operationLog with
  | none =>
      exact ⟨⟨env.policy, none, env.heedsStop⟩, s.world, rfl, .refl _ _ ready.plain, rfl,
        fun _ same => by cases same⟩
  | some path =>
      have member := operationLog_mem log
      obtain ⟨log', w, opened, tends, there⟩ :=
        World.openAt_of_slot ready.plain ready.working (ready.slot path member)
      have in_logs := mem_logPlaces member s.world.cwd
      let c : Conduct σ := ⟨env.policy, some log', env.heedsStop⟩
      have opens : Tends (env.logPlaces s.world.cwd) ∅ s.world w := by
        refine tends.mono (fun loc same => ?_) (by simp)
        rw [Set.mem_singleton_iff] at same
        subst same
        exact in_logs
      have is_open : env.Opened c w := by
        refine ⟨rfl, fun other same => ?_⟩
        cases same
        rw [tends.cwd]
        exact ⟨_, in_logs, there, tends.disk.lone _ (ready.slot path member).lone⟩
      obtain ⟨noted, still_open⟩ := note_tends is_open opens.disk.plain message
      rw [tends.cwd] at noted
      refine ⟨c, c.note message w, ?_, opens.trans noted, still_open⟩
      simp only [run_bind, run_onWorld, opened]
      rfl

/-- After a run away from the logs a history that can be written is kept. Away from the
logs files moved as the run moved them, and the world is ready again. -/
theorem Ready.keep {c : Conduct σ} {u v : World} {moves : List (Path × Path)} {after : FileMap}
    {h : History} (ready : env.Ready u) (begun : Tends (env.logPlaces u.cwd) ∅ u v)
    (opened : env.Opened c v) (stands : StandsFor (openFiles c) v w after)
    (moved : FileMap.run u.place? moves v.files = some after)
    (clear : ∀ m ∈ moves, env.Clear u m.1 ∧ env.Clear u m.2)
    (done : ∀ b ∈ h.done, UndoLog.CanWrite b.commands)
    (undone : ∀ b ∈ h.undone, UndoLog.CanWrite b.commands) :
    ∃ w', (h.save env.undoLog).run.run w = (.ok (), w') ∧
      World.Shifts (env.logPlaces u.cwd) u.place? moves u w' ∧ env.Ready w' ∧ env.Steady u w' ∧
      w'.Holds (addressOf u.cwd env.undoLog)
        (Text.encode (UndoLog.write h.done.reverse).text) ∧
      (h.undone.any Batch.isRecorded = true →
        w'.Holds (addressOf u.cwd (UndoLog.redoPath env.undoLog))
          (Text.encode (UndoLog.write h.undone.reverse).text)) := by
  have ready_v := ready.tends begun
  have off := movesOff clear
  have cwd : w.cwd = u.cwd := stands.shuffles.cwd.trans begun.cwd
  have ready_w : env.Ready w := ready_v.stands stands moved (by rw [begun.cwd]; exact off)
  obtain ⟨w', saved, tends, holds, holds'⟩ := History.save_of_slots ready_w.plain ready_w.working
    (ready_w.slot _ env.undoLog_mem) (ready_w.slot _ env.redoPath_mem) ready_w.apart done undone
  rw [cwd] at tends holds holds'
  have kept : Tends (env.logPlaces u.cwd) ∅ w w' :=
    tends.mono (env.historyLogs_subset u.cwd) (by simp)
  have known := opened.known
  rw [begun.cwd] at known
  have to_ways : ∀ {a b : World}, a.cwd = u.cwd → Tends (env.logPlaces u.cwd) ∅ a b →
      env.Steady a b := by
    intro a b same tends
    refine steady_of_tends ?_
    rw [same]
    exact tends.mono (fun _ inside => inside) (by simp)
  refine ⟨w', saved, .of_stands begun stands moved off known kept, ?_, ?_, holds, holds'⟩
  · rw [← cwd] at kept
    exact ready_w.tends kept
  · exact ((to_ways rfl begun).trans (steady_of_shuffles ready_v.plain stands.shuffles)).trans
      (to_ways cwd kept)

end Surroundings

end Renumber
