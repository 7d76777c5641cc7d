import Renumber.Proofs.Run.Refine
import Renumber.Proofs.World.Flat
import Renumber.Run.Batch
import Renumber.Run.Conduct

/-!
# Runs of renames

A conduct is calm when its policy keeps its hands off the disk. The only thing besides
its commands that such a run does to a disk is to write to its log, and a log is the
data of a file, whatever name that file has. So where only files move, a calm run of
renames is a run of moves in the map of files.
-/

namespace Renumber

/-- One world is another of which only the data of a log changed, and the clock. -/
structure World.OnlyLogged (logs : Set Nat) (w w' : World) : Prop where
  cwd : w'.cwd = w.cwd
  interrupt : w'.interrupt = w.interrupt
  get? : ∀ loc, w'.disk.get? loc = w.disk.get? loc
  fresh : w'.disk.fresh = w.disk.fresh
  data : ∀ id, id ∉ logs → w'.disk.file? id = w.disk.file? id
  mode : ∀ id, w'.disk.modeOf? id = w.disk.modeOf? id

namespace World

variable {logs : Set Nat} {w w' : World}

theorem OnlyLogged.refl (w : World) : OnlyLogged logs w w :=
  ⟨rfl, rfl, fun _ => rfl, rfl, fun _ _ => rfl, fun _ => rfl⟩

theorem OnlyLogged.sameShape (logged : OnlyLogged logs w w') : w.disk.SameShape w'.disk :=
  fun loc => by rw [Disk.shape?, Disk.shape?, logged.get?]

theorem OnlyLogged.files (logged : OnlyLogged logs w w') : w'.files = w.files := by
  funext loc
  rw [World.files, World.files, Disk.fileAt?, Disk.fileAt?, logged.get?]

theorem OnlyLogged.shuffles (logged : OnlyLogged logs w w') : Shuffles logs w w' :=
  ⟨logged.cwd, ⟨logged.sameShape.keeps, logged.sameShape.symm.keeps⟩, logged.data, logged.fresh,
    logged.mode⟩

end World

/-- A wish to stop is counted down and otherwise left. -/
theorem World.run_lookForStop (w : World) :
    World.lookForStop.run w = match w.interrupt with
      | none => (false, w)
      | some 0 => (true, w)
      | some (n + 1) => (false, { w with interrupt := some n }) := by
  change (match w.interrupt with
    | none => (pure false : StateM World Bool)
    | some 0 => pure true
    | some (n + 1) => do
      set { w with interrupt := some n }
      return false).run w = _
  match w.interrupt with
  | none => rfl
  | some 0 => rfl
  | some (n + 1) => rfl

/-- An entry of a log is written to its file, and the clock moves on. -/
theorem OperationLog.run_write (log : OperationLog) (message : String) (w : World) :
    ∃ all, ((log.write message).run w).2 = { w with
      disk := w.disk.writeFile (w.clock.after World.clockStep) log.file all
      clock := (w.clock.after World.clockStep).after World.clockStep
      deeds := .append log.file (Text.bytesOf (line w.clock message)) :: w.deeds } := by
  obtain ⟨all, written⟩ := Disk.appendFile_eq w.disk (w.clock.after World.clockStep) log.file
    (Text.bytesOf (line w.clock message))
  refine ⟨all, ?_⟩
  rw [← written]
  rfl

/-- An entry of a log changes the data of its file only. -/
theorem OperationLog.write_onlyLogged {logs : Set Nat} {log : OperationLog}
    (known : log.file ∈ logs) (message : String) (w : World) :
    World.OnlyLogged logs w ((log.write message).run w).2 := by
  obtain ⟨all, after⟩ := log.run_write message w
  rw [after]
  refine ⟨rfl, rfl, fun loc => Disk.get?_writeFile .., Disk.fresh_writeFile .., fun id other => ?_,
    fun id => Disk.modeOf?_writeFile ..⟩
  exact Disk.file?_writeFile_of_ne _ _ _ fun same => other (same ▸ known)

namespace Conduct

variable {σ : Type} {logs : Set Nat} {c : Conduct σ}

/-- The policy does not touch files, and the log, if there is one, is known. -/
structure Calm (c : Conduct σ) (logs : Set Nat) : Prop where
  disk : ∀ command failure s w, (c.policy.decide command failure s w).2.2.disk = w.disk
  cwd : ∀ command failure s w, (c.policy.decide command failure s w).2.2.cwd = w.cwd
  log : ∀ log, c.log = some log → log.file ∈ logs

theorem note_onlyLogged (known : ∀ log, c.log = some log → log.file ∈ logs) (message : String)
    (w : World) : World.OnlyLogged logs w (c.note message w) := by
  rw [Conduct.note]
  split
  · next log same => exact OperationLog.write_onlyLogged (known log same) message w
  · exact .refl w

theorem Calm.note (calm : c.Calm logs) (message : String) (w : World) :
    World.OnlyLogged logs w (c.note message w) :=
  note_onlyLogged calm.log message w

/-- Stop at the first failure, and when the user wishes to. -/
def haltable : Conduct Unit where
  policy := .fixed false
  heedsStop := true

theorem haltable_calm (logs : Set Nat) : haltable.Calm logs where
  disk _ _ _ _ := rfl
  cwd _ _ _ _ := rfl
  log _ same := by cases same

/-- Looking for a wish to stop changes no file. -/
theorem stopped_disk (c : Conduct σ) (w : World) :
    (c.stopped w).2.disk = w.disk ∧ (c.stopped w).2.cwd = w.cwd := by
  rw [stopped]
  split
  · rw [World.run_lookForStop]
    split <;> exact ⟨rfl, rfl⟩
  · exact ⟨rfl, rfl⟩

end Conduct

/-! ## Renames as moves in the map of files -/

/-- A world in which only files moved since a base, and the map of its files. -/
structure World.StandsFor (logs : Set Nat) (base w : World) (files : FileMap) : Prop where
  tree : w.disk.IsTree
  files : w.files = files
  shuffles : World.Shuffles logs base w

theorem World.StandsFor.of_onlyLogged {logs : Set Nat} {base w w' : World} {files : FileMap}
    (stands : StandsFor logs base w files) (logged : OnlyLogged logs w w') :
    StandsFor logs base w' files :=
  ⟨stands.tree.of_sameShape logged.sameShape, logged.files.trans stands.files,
    stands.shuffles.trans logged.shuffles⟩

theorem World.StandsFor.of_disk_eq {logs : Set Nat} {base w w' : World} {files : FileMap}
    (stands : StandsFor logs base w files) (disk : w'.disk = w.disk) (cwd : w'.cwd = w.cwd) :
    StandsFor logs base w' files := by
  refine ⟨disk ▸ stands.tree, ?_, ?_⟩
  · rw [← stands.files, World.files, World.files, disk]
  · exact stands.shuffles.trans
      ⟨cwd, disk ▸ .refl _, fun _ _ => by rw [disk], by rw [disk], fun _ => by rw [disk]⟩

/-- What a command means for a map of files. -/
def FileMap.meaning (place : Path → Option Location) (files : FileMap) (c : Command) :
    Option FileMap :=
  (Batch.moveOf? c).bind (FileMap.step place files)

/-- The command renames between paths of a kind. -/
def Command.RenamesIn (kind : Path → Prop) : Command → Prop
  | rename source target => kind source ∧ kind target
  | _ => False

theorem Command.RenamesIn.mono {kind kind' : Path → Prop} {c : Command} (renames : c.RenamesIn kind)
    (more : ∀ p, kind p → kind' p) : c.RenamesIn kind' := by
  cases c with
  | rename source target => exact ⟨more _ renames.1, more _ renames.2⟩
  | _ => exact renames.elim

theorem Command.RenamesIn.inverse {kind : Path → Prop} {c : Command} (renames : c.RenamesIn kind) :
    c.inverse.RenamesIn kind := by
  cases c with
  | rename source target => exact ⟨renames.2, renames.1⟩
  | _ => exact renames.elim

theorem Command.RenamesIn.directed {kind : Path → Prop} {c : Command} (renames : c.RenamesIn kind)
    (inverse : Bool) : (Run.directed inverse c).RenamesIn kind := by
  cases inverse
  · exact renames
  · exact renames.inverse

/-- A command that acts on the world of a workspace fails with a failure of its own. -/
theorem Workspace.run_onWorld_adapt (failure : DiskFault → Failure) (action : Act DiskFault Unit)
    (ws : Workspace) : (onWorld (ExceptT.adapt failure action)).run.run ws =
      match action.run.run ws.world with
      | (.ok _, world) => (.ok (), { ws with world })
      | (.error fault, world) => (.error (failure fault), { ws with world }) := by
  change (((action.run.run ws.world).1.mapError failure),
    { ws with world := (action.run.run ws.world).2 }) = _
  rcases action.run.run ws.world with ⟨r | r, w⟩ <;> rfl

/-- Running a rename on a workspace is renaming in its world. -/
theorem Command.run_rename (source target : Path) (ws : Workspace) :
    (Command.rename source target).execute.run.run ws =
      match (World.renameFile source target).run.run ws.world with
      | (.ok _, world) => (.ok (), { ws with world })
      | (.error fault, world) =>
        (.error (.renameFailed source target fault), { ws with world }) :=
  Workspace.run_onWorld_adapt (.renameFailed source target) (World.renameFile source target) ws

/-- A rename whose move is possible in the map of files is done. -/
theorem World.StandsFor.execute {logs : Set Nat} {base : World} {files files' : FileMap}
    {command : Command} {ws : Workspace} (stands : StandsFor logs base ws.world files)
    (renames : command.RenamesIn base.FlatAt)
    (possible : files.meaning base.place? command = some files') :
    ∃ w', command.execute.run.run ws = (.ok (), { ws with world := w' }) ∧
      StandsFor logs base w' files' ∧ w'.interrupt = ws.world.interrupt := by
  cases command with
  | rename source target =>
      obtain ⟨tree, rfl, shuffles⟩ := stands
      have step : FileMap.step ws.world.place? ws.world.files (source, target) = some files' := by
        rw [shuffles.place?]
        exact possible
      obtain ⟨w', done, tree', at_end, interrupt, later⟩ :=
        World.renameFile_of_step logs tree (shuffles.flatAt renames.2) step
      refine ⟨w', ?_, ⟨tree', at_end, shuffles.trans later⟩, interrupt⟩
      exact (Command.run_rename source target ws).trans (by rw [done])
  | _ => exact renames.elim

/-- Where only files moved since a base, a calm run of renames between flat paths is a
run of moves in the map of files. -/
theorem Conduct.Calm.refines {σ : Type} {c : Conduct σ} {logs : Set Nat} (calm : c.Calm logs)
    (base : World) :
    Run.Refines c.machine c.policy.onWorkspace
      (fun ws files => World.StandsFor logs base ws.world files)
      (FileMap.meaning base.place?) (Command.RenamesIn base.FlatAt) where
  runs command ws files files' renames stands possible := by
    obtain ⟨w', done, stands', -⟩ := stands.execute renames possible
    exact ⟨{ ws with world := w' }, done, stands'⟩
  fails command ws files renames stands impossible := by
    cases command with
    | rename source target =>
        obtain ⟨tree, rfl, shuffles⟩ := stands
        have step : FileMap.step ws.world.place? ws.world.files (source, target) = none := by
          rw [shuffles.place?]
          exact impossible
        obtain ⟨fault, w', failed, disk, cwd, -⟩ :=
          World.renameFile_of_no_step (shuffles.flatAt renames.1) (shuffles.flatAt renames.2) step
        refine ⟨.renameFailed source target fault, { ws with world := w' }, ?_, ?_⟩
        · exact (Command.run_rename source target ws).trans (by rw [failed])
        · exact World.StandsFor.of_disk_eq ⟨tree, rfl, shuffles⟩ disk cwd
    | _ => exact renames.elim
  note message ws files stands := stands.of_onlyLogged (calm.note message ws.world)
  stopped ws files stands :=
    stands.of_disk_eq (c.stopped_disk ws.world).1 (c.stopped_disk ws.world).2
  decide command failure s ws files stands :=
    stands.of_disk_eq (calm.disk command failure s ws.world) (calm.cwd command failure s ws.world)

/-! ## Runs that nobody stops -/

/-- Where only files moved since a base and the user has not wished anything since, renames
are done as long as their moves are possible, whatever the policy is. -/
theorem Conduct.does {σ : Type} {c : Conduct σ} {logs : Set Nat}
    (known : ∀ log, c.log = some log → log.file ∈ logs) (base : World) :
    Run.Does c.machine
      (fun ws files => World.StandsFor logs base ws.world files ∧
        ws.world.interrupt = base.interrupt)
      (FileMap.meaning base.place?) (Command.RenamesIn base.FlatAt) where
  runs command ws files files' renames stands possible := by
    obtain ⟨w', done, stands', interrupt⟩ := stands.1.execute renames possible
    exact ⟨{ ws with world := w' }, done, stands', interrupt.trans stands.2⟩
  note message ws files stands := by
    have logged := c.note_onlyLogged known message ws.world
    exact ⟨stands.1.of_onlyLogged logged, logged.interrupt.trans stands.2⟩

/-- A run goes on where the user's wish to stop does not count or will not come. -/
theorem Conduct.goes_on {σ : Type} {c : Conduct σ} {ws : Workspace}
    (unstopped : c.heedsStop = false ∨ ws.world.interrupt = none) :
    c.machine.stopped ws = (false, ws) := by
  have looked : c.stopped ws.world = (false, ws.world) := by
    rw [Conduct.stopped]
    split
    · next heeds =>
      obtain unheeded | none_comes := unstopped
      · rw [heeds] at unheeded
        cases unheeded
      · rw [World.run_lookForStop, none_comes]
    · rfl
  rw [Conduct.machine]
  simp only [looked]

end Renumber
