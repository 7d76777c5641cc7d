import Renumber.Proofs.Disk.Within
import Renumber.Proofs.Request.Ready

/-!
# Runs that begin

When a run begins its log is opened, and folders may be made for it. Whatever was there before
is still there, away from the logs nothing else is, and the log stands at a slot.
-/

namespace Renumber

open Disk (addressOf wayOf)
open Outcome
open World (Tends)

namespace World

variable {w w' : World} {p : Path}

/-- Whatever stands in one world stands in the other. -/
def Within (w w' : World) : Prop :=
  w'.cwd = w.cwd ∧ w.disk.Within w'.disk

theorem Within.refl (w : World) : w.Within w :=
  ⟨rfl, fun _ _ there => there⟩

theorem Within.trans (u v w : World) (first : u.Within v) (second : v.Within w) : u.Within w :=
  ⟨second.1.trans first.1, first.2.trans second.2⟩

theorem Grows.within (grows : w.Grows w') : w.Within w' :=
  ⟨grows.cwd, grows.disk.within⟩

theorem OnlyLogged.within {logs : Set Nat} (logged : OnlyLogged logs w w') : w.Within w' :=
  ⟨logged.cwd, logged.sameShape.within⟩

/-- What is there stays there. -/
theorem Within.present (within : w.Within w') (there : w.present p = true) : w'.present p = true := by
  rw [World.present, Disk.present] at there ⊢
  cases found : w.disk.findEntry w.cwd false p with
  | error fault =>
      rw [found] at there
      cases there
  | ok out =>
      obtain ⟨loc, e⟩ := out
      obtain ⟨e', found', -⟩ := within.2.findEntry found
      rw [within.1, found']
      rfl

theorem act_openFile_within (p : Path) : Along Within (act (.openFile p)) := by
  intro w
  rw [run_act, Deed.doOn]
  cases opened : w.disk.openFile w.clock w.cwd p with
  | error fault => exact ⟨rfl, fun _ _ there => there⟩
  | ok out => exact ⟨rfl, (Disk.openFile_within opened).1⟩

/-- Opening a log takes nothing away. -/
theorem openAt_within (p : Path) : Along Within (OperationLog.openAt p) := by
  have above : Along Within (makeParent p) := fun w => (makeParent_growsToward p w).grows.within
  refine .bind Within.trans above fun _ => .bind Within.trans (act_openFile_within p) fun _ => ?_
  refine .bind Within.trans (fun w => ?_) fun _ => .pure Within.refl _
  rw [run_ask]
  exact .refl w

end World

namespace Surroundings

variable {σ : Type} {env : Surroundings σ} {s s' : Sitting σ} {message : String} {c : Conduct σ}

/-- A log that is open has a slot, with a file in it. -/
def LogStands (env : Surroundings σ) (cwd : Location) (w : World) : Prop :=
  ∀ p, env.operationLog = some p →
    w.Slot p (addressOf cwd p) ∧ w.files (addressOf cwd p) ≠ none

/-- A run that began has its log open. Away from the logs nothing happened to the world. -/
theorem beginRun_ok (plain : s.world.disk.Plain)
    (working : s.world.disk.shape? s.world.cwd = some .folder)
    (lone : ∀ p, env.operationLog = some p → s.world.disk.Lone (addressOf s.world.cwd p))
    (begun : (env.beginRun message).run.run s = (.ok c, s')) :
    s' = { s with world := s'.world, report := {} } ∧
      Tends (env.logPlaces s.world.cwd) (env.logWays s.world.cwd) s.world s'.world ∧
      s.world.Within s'.world ∧ env.Opened c s'.world ∧ env.LogStands s.world.cwd s'.world := by
  rw [run_beginRun, openLog] at begun
  cases log : env.operationLog with
  | none =>
      rw [log] at begun
      cases begun
      refine ⟨rfl, .refl _ _ plain, .refl _, ⟨rfl, fun _ same => by cases same⟩, fun p same => ?_⟩
      rw [log] at same
      cases same
  | some path =>
      rw [log] at begun
      simp only [run_bind, run_onWorld] at begun
      have within := World.openAt_within path s.world
      generalize opened : (OperationLog.openAt path).run.run s.world = out at begun within
      obtain ⟨fault | log', w⟩ := out
      · cases begun
      · cases begun
        obtain ⟨opens, slot, there⟩ := World.openAt_ok plain working (lone path log) opened
        have member := operationLog_mem log
        have in_logs := mem_logPlaces member s.world.cwd
        let c : Conduct σ := ⟨env.policy, some log', env.heedsStop⟩
        have logged : World.OnlyLogged {log'.file} w (c.note message w) := by
          refine c.note_onlyLogged (fun other same => ?_) message w
          cases same
          exact Set.mem_singleton _
        have notes := logged.tends opens.disk.plain slot.lone there
        have files : (c.note message w).files (addressOf s.world.cwd path) = some log'.file :=
          (congrFun logged.files _).trans there
        have own : ∀ loc ∈ ({addressOf s.world.cwd path} : Set Location),
            loc ∈ env.logPlaces s.world.cwd := by
          rintro loc rfl
          exact in_logs
        have opens : Tends (env.logPlaces s.world.cwd) (env.logWays s.world.cwd) s.world w :=
          opens.mono own fun loc on_way => ⟨path, member, on_way⟩
        have is_open : env.Opened c (c.note message w) := by
          refine ⟨rfl, fun other same => ?_⟩
          cases same
          refine ⟨_, ?_, files, notes.disk.lone _ slot.lone⟩
          rw [logged.cwd, opens.cwd]
          exact in_logs
        refine ⟨rfl, opens.trans (notes.mono own (by simp)),
          World.Within.trans _ _ _ within logged.within, is_open, fun p same => ?_⟩
        rw [log] at same
        cases same
        refine ⟨slot.tends notes (Set.notMem_empty _), ?_⟩
        rw [files]
        exact Option.some_ne_none _

/-- The log of a run is a file since the run began, so files that move elsewhere and folders that are
made later leave its slot. -/
theorem LogStands.slot {open_ : Set Nat} {cwd : Location} {v w x : World} {p : Path}
    {place : Path → Option Location} {moves : List (Path × Path)} {after : FileMap}
    (log : env.LogStands cwd v) (own : env.operationLog = some p) (plain : v.disk.Plain)
    (stands : World.StandsFor open_ v w after) (moved : FileMap.run place moves v.files = some after)
    (off : FileMap.MovesOff place (env.logPlaces cwd) moves) (grows : w.Grows x) :
    x.Slot p (addressOf cwd p) := by
  obtain ⟨slot, stood⟩ := log p own
  have inside := mem_logPlaces (operationLog_mem own) cwd
  refine (stands.slot plain moved off inside slot).grows (stands.plain plain moved) grows ?_
  rw [stands.files, FileMap.run_aside moved off inside]
  exact stood

/-- Where a history without undone batches was kept after a run away from the logs, files moved
as the run moved them, and the world is ready, whether it was before or not. -/
theorem ready_of_saved {u v w w' : World} {moves : List (Path × Path)} {after : FileMap} {h : History}
    (working : u.disk.shape? u.cwd = some .folder) (room : UndoLog.HasRoom env.undoLog)
    (readable : u.disk.Allows Disk.ownerRead (addressOf u.cwd env.undoLog))
    (lone : u.disk.Lone (addressOf u.cwd env.undoLog))
    (begun : Tends (env.logPlaces u.cwd) (env.logWays u.cwd) u v) (opened : env.Opened c v)
    (log : env.LogStands u.cwd v) (stands : World.StandsFor (openFiles c) v w after)
    (moved : FileMap.run u.place? moves v.files = some after)
    (clear : ∀ m ∈ moves, env.Clear u m.1 ∧ env.Clear u m.2) (none_undone : h.undone = [])
    (saved : (h.save env.undoLog).run.run w = (.ok (), w')) :
    World.Shifts (env.logPlaces u.cwd) u.place? moves u w' ∧ env.Ready w' ∧ env.Steady u w' ∧
      w'.Holds (addressOf u.cwd env.undoLog) (Text.encode (UndoLog.write h.done.reverse).text) ∧
      (UndoLog.write h.done.reverse).fault = none := by
  have plain_v : v.disk.Plain := begun.disk.plain
  have off := movesOff clear
  have plain_w : w.disk.Plain := stands.plain plain_v moved
  have cwd : w.cwd = u.cwd := stands.shuffles.cwd.trans begun.cwd
  have working_w : w.disk.shape? w.cwd = some .folder := by
    rw [cwd]
    exact stands.shuffles.ways.1.folder _ (begun.disk.keeps.folder _ working)
  have lone_w : w.disk.Lone (addressOf w.cwd env.undoLog) := by
    rw [cwd]
    exact stands.lone moved off (mem_logPlaces env.undoLog_mem u.cwd) (begun.disk.lone _ lone)
  obtain ⟨x, grows, above, kept, slot, holds, whole, place, gone⟩ :=
    History.save_ok plain_w working_w lone_w room none_undone saved
  rw [cwd] at above kept slot holds place gone
  have later : Tends (env.logPlaces u.cwd) (env.logWays u.cwd) w w' := by
    refine (above.mono (by simp) ?_).trans (kept.mono (env.historyLogs_subset u.cwd) (by simp))
    exact fun loc on_way => ⟨_, env.undoLog_mem, on_way⟩
  have cwd' : w'.cwd = u.cwd := later.cwd.trans cwd
  have known := opened.known
  rw [begun.cwd] at known
  have unredone : w'.Slot (UndoLog.redoPath env.undoLog)
      (addressOf u.cwd (UndoLog.redoPath env.undoLog)) := Disk.slot_of_missing place gone
  have ready : env.Ready w' := by
    constructor
    · exact later.disk.plain
    · rw [cwd', ← cwd]
      exact later.disk.keeps.folder _ working_w
    · intro p member
      rw [cwd']
      obtain rfl | rfl | own : p = env.undoLog ∨ p = UndoLog.redoPath env.undoLog ∨
          env.operationLog = some p := by
        simpa [logPaths, eq_comm] using member
      · exact slot
      · exact unredone
      · exact (log.slot own plain_v stands moved off grows).tends kept (Set.notMem_empty _)
    · rw [cwd']
      refine later.disk.allows _ (by decide) _ (stands.allows moved off ?_ ?_)
      · exact mem_logPlaces env.undoLog_mem u.cwd
      · exact begun.disk.allows _ (by decide) _ readable
    · rw [cwd']
      intro id there
      rw [Disk.fileAt?, gone] at there
      cases there
    · rw [cwd']
      obtain ⟨beside, place', apart⟩ := UndoLog.place_redoPath room slot.place
      rwa [Option.some.inj (place.symm.trans place')]
  refine ⟨.of_stands begun stands moved off known later, ready, ?_, holds, whole⟩
  refine ((steady_of_tends begun).trans (steady_of_shuffles plain_v stands.shuffles)).trans ?_
  rw [← cwd] at later
  exact steady_of_tends later

end Surroundings

end Renumber
