import Renumber.Proofs.Disk.Kept
import Renumber.Proofs.History.Steps
import Renumber.Proofs.Run.Conduct
import Renumber.Proofs.Run.Tally
import Renumber.Proofs.World.Sample

/-!
# Renames keep files, but for one way

A rename looks whether its target is free before it makes the folders above it. A target
that leads through a folder that is missing, and out of it again, is free at first and
then leads to a file, which the move replaces. This is the only way in which runs of
renames lose files: whatever the commands are, with any calm policy, forward or backward,
and wherever they are cut short, a run keeps all files exactly when no attempt overwrites
one so.
-/

namespace Renumber

namespace World

variable {w : World} {source target : Path} {logs : Set Nat}

/-- A rename whose target is free, and leads to another file once the folders above it are
made. -/
def Overwrites (w : World) (source target : Path) : Prop :=
  w.present source = true ∧ w.present target = false ∧
    ∃ w', (makeWay target).run.run w = (.ok (), w') ∧ w'.disk.Displaces w'.cwd source target

/-- A rename loses a file exactly when it overwrites one. -/
theorem renameFile_balance (logs : Set Nat) (source target : Path) (tree : w.disk.IsTree) :
    Disk.Balance logs (w.Overwrites source target) w.disk
      ((renameFile source target).run.run w).2.disk := by
  rw [run_renameFile]
  cases found : w.disk.findEntry w.cwd false source with
  | error fault =>
      refine .of_kept (fun overwrites => ?_) tree (.refl _)
      have missing := overwrites.1
      rw [present, Disk.present, found] at missing
      cases missing
  | ok at_source =>
      simp only
      split
      · next taken =>
        refine .of_kept (fun overwrites => ?_) tree (.refl _)
        cases taken.symm.trans overwrites.2.1
      · next free =>
        have grows := makeWay_grows target w
        rcases made : (makeWay target).run.run w with ⟨fault | ⟨⟩, w'⟩
        · rw [made] at grows
          refine .of_kept ?_ (grows.disk.tree tree) ((grows.disk.balance logs tree).kept id)
          rintro ⟨-, -, w'', way, -⟩
          cases made.symm.trans way
        · rw [made] at grows
          have widened := grows.disk.balance logs tree
          have overwrites_iff : w.Overwrites source target ↔
              w'.disk.Displaces w'.cwd source target := by
            constructor
            · rintro ⟨-, -, w'', way, displaces⟩
              cases made.symm.trans way
              exact displaces
            · intro displaces
              refine ⟨?_, by simpa using free, w', made, displaces⟩
              rw [present, Disk.present, found]
              rfl
          simp only [run_act, Deed.doOn]
          cases moved : w'.disk.move w'.clock w'.cwd source target with
          | error fault =>
              refine .of_kept (fun overwrites => ?_) widened.tree (widened.kept id)
              obtain ⟨d', done⟩ := (overwrites_iff.1 overwrites).move_ok w'.clock
              cases moved.symm.trans done
          | ok disk =>
              have both := widened.trans (Disk.move_balance logs widened.tree moved)
              rw [false_or, ← overwrites_iff] at both
              exact both

/-- Nothing is overwritten where the folder that the target names is there. -/
theorem Overwrites.folder_missing (overwrites : w.Overwrites source target) : w.LacksFolder target := by
  obtain ⟨-, free, w', made, oldFolder, oldName, newFolder, newName, entry, id, movable, leaf,
    there, -⟩ := overwrites
  by_contra given
  have same : w' = w := by
    rw [run_makeWay_of_folder given] at made
    cases made
    rfl
  subst same
  obtain ⟨slashed, last, folder_only⟩ := movable.target_last
  cases slashed with
  | true => exact leaf (folder_only rfl)
  | false =>
      have place : w'.disk.place? w'.cwd target = some (newFolder ++ [newName]) :=
        Disk.place?_eq_some.2 ⟨_, _, last, movable.short, rfl⟩
      rw [present, Disk.present_of_place place, there] at free
      cases free

end World

/-- A command overwrites a file when it renames, and that does. -/
def Command.Overwrites (w : World) : Command → Prop
  | rename source target => w.Overwrites source target
  | _ => False

theorem Command.kind_inverse (c : Command) : c.inverse.kind = c.kind := by
  cases c <;> rfl

/-- Under a calm conduct, renames lose files exactly when they overwrite them, and nothing
else loses any. -/
theorem Conduct.Calm.tallies {σ : Type} {c : Conduct σ} {logs : Set Nat} (calm : c.Calm logs) :
    Run.Tallies c.machine c.policy.onWorkspace (fun command => command.kind = .rename)
      (fun t => t.1.Overwrites t.2.world) (fun ws => ws.world.disk.IsTree)
      (fun lost ws ws' => Disk.Balance logs lost ws.world.disk ws'.world.disk) where
  still balance := balance.tree
  refl tree := .of_kept id tree (.refl _)
  trans first second := first.trans second
  execute {command ws} renames tree := by
    cases command with
    | rename source target =>
        have balance := World.renameFile_balance logs source target tree
        have executed : (c.machine.execute (.rename source target) ws).2.world.disk =
            ((World.renameFile source target).run.run ws.world).2.disk := by
          refine (congrArg (fun out => out.2.world.disk) (Command.run_rename source target ws)).trans ?_
          rcases (World.renameFile source target).run.run ws.world with ⟨_ | _, w⟩ <;> rfl
        rw [executed]
        exact balance
    | _ => cases renames
  note text {ws} tree := by
    have logged := calm.note text ws.world
    have files : ∀ loc, (c.note text ws.world).disk.fileAt? loc = ws.world.disk.fileAt? loc :=
      congrFun logged.files
    exact .of_kept id (tree.of_sameShape logged.sameShape) (.of_fileAt? files logged.data)
  stopped {ws} tree := by
    have same : (c.machine.stopped ws).2.world.disk = ws.world.disk := (c.stopped_disk ws.world).1
    rw [same]
    exact .of_kept id tree (.refl _)
  decide command failure s {ws} tree := by
    have same : (c.policy.onWorkspace.decide command failure s ws).2.2.world.disk = ws.world.disk :=
      calm.disk command failure s ws.world
    rw [same]
    exact .of_kept id tree (.refl _)

section

variable {σ : Type} {c : Conduct σ} {logs : Set Nat} {r : Run.State σ Workspace}

/-- A calm run of renames, or of their inverses, keeps all files exactly when none of its
attempts overwrites one. -/
theorem Run.filesKept_commands (calm : c.Calm logs) (tree : r.place.world.disk.IsTree)
    (inverse : Bool) {cs : List Command} (renames : ∀ c ∈ cs, c.kind = .rename) :
    Disk.FilesKept logs r.place.world.disk
        (commands c.machine c.policy.onWorkspace inverse cs r).2.place.world.disk ↔
      ∀ t ∈ tries c.machine c.policy.onWorkspace inverse cs r.answers r.place,
        ¬t.1.Overwrites t.2.world := by
  have named : ∀ c ∈ cs, (if inverse then c.inverse else c).kind = .rename := by
    intro c member
    split
    · exact c.kind_inverse.trans (renames c member)
    · exact renames c member
  have balance := calm.tallies.steps
    (r := { r with report := { r.report with total := r.report.total + cs.length } }) named tree
  rw [Run.commands, balance.kept_iff]
  simp only [not_exists, not_and]

/-- Calm runs of renames, forward or backward, and calls of a history whose batches are
renames, keep all files exactly when none of their attempts overwrites one. -/
theorem History.filesKept_iff (calm : c.Calm logs) (tree : r.place.world.disk.IsTree) :
    (∀ inverse cs, (∀ c ∈ cs, c.kind = .rename) →
      (Disk.FilesKept logs r.place.world.disk
          (Run.commands c.machine c.policy.onWorkspace inverse cs r).2.place.world.disk ↔
        ∀ t ∈ Run.tries c.machine c.policy.onWorkspace inverse cs r.answers r.place,
          ¬t.1.Overwrites t.2.world)) ∧
      ∀ h call, (∀ c ∈ (running h call).2, c.kind = .rename) →
        (Disk.FilesKept logs r.place.world.disk
            (h.call c.machine c.policy.onWorkspace r call).2.place.world.disk ↔
          ∀ t ∈ Run.tries c.machine c.policy.onWorkspace (h.running call).1 (h.running call).2
              r.answers r.place,
            ¬t.1.Overwrites t.2.world) := by
  refine ⟨fun inverse cs renames => Run.filesKept_commands calm tree inverse renames,
    fun h call renames => ?_⟩
  rw [call_place]
  exact Run.filesKept_commands calm tree _ renames

end

/-- Two files, of which one takes the place of the other by way of a folder that is
missing. -/
def detour : Run.State Unit Workspace :=
  ⟨(), ⟨World.sample [("a", "first"), ("b", "second")], none⟩, {}⟩

/-- The command that does so. -/
def detourCommands : List Command :=
  [.rename (.ofString "b") (.ofString "x/../a")]

theorem not_filesKept_detour :
    Conduct.haltable.Calm ∅ ∧ detour.place.world.disk.IsTree ∧
      (∀ c ∈ detourCommands, c.kind = .rename) ∧
      ¬Disk.FilesKept ∅ detour.place.world.disk
        (Run.commands Conduct.haltable.machine Conduct.haltable.policy.onWorkspace false detourCommands
          detour).2.place.world.disk := by
  refine ⟨Conduct.haltable_calm ∅, by decide +kernel, by decide, fun kept => ?_⟩
  obtain ⟨f, -, same⟩ := kept.moved
  have stood : detour.place.world.disk.fileAt? (sampleFolder ++ [Text.bytesOf "a"]) = some 0 := by
    decide +kernel
  have stands := same _ (Disk.mem_filePlaces.2 ⟨0, stood⟩)
  rw [stood, Disk.fileAt?_eq_some] at stands
  have gone : ∀ e ∈ (Run.commands Conduct.haltable.machine Conduct.haltable.policy.onWorkspace false
      detourCommands detour).2.place.world.disk.entries.toList, e.2 ≠ .file 0 := by
    decide +kernel
  exact gone _ (Std.TreeMap.mem_toList_iff_getElem?_eq_some.2 stands) rfl

/-- A batch that is undone where its second command finds its target taken. -/
theorem filesKept_iff_rowUndone :
    let r : Run.State Unit Workspace :=
      ⟨(), ⟨World.sample [("b", "first"), ("c", "second")], none⟩, {}⟩
    let h : History :=
      { done := [{ kind := .rename, commands :=
          [.rename (.ofString "b") (.ofString "c"), .rename (.ofString "a") (.ofString "b")] }]
        limit := 1 }
    Conduct.haltable.Calm ∅ ∧ r.place.world.disk.IsTree ∧
      (∀ c ∈ (h.running .undo).2, c.kind = .rename) ∧
      (Disk.FilesKept ∅ r.place.world.disk
          (h.call Conduct.haltable.machine Conduct.haltable.policy.onWorkspace r .undo).2.place.world.disk ↔
        ∀ t ∈ Run.tries Conduct.haltable.machine Conduct.haltable.policy.onWorkspace true
            (h.running .undo).2 r.answers r.place,
          ¬t.1.Overwrites t.2.world) := by
  intro r h
  have tree : r.place.world.disk.IsTree := by decide +kernel
  have renames : ∀ c ∈ (h.running .undo).2, c.kind = .rename := by decide
  exact ⟨Conduct.haltable_calm ∅, tree, renames,
    (History.filesKept_iff (Conduct.haltable_calm ∅) tree).2 h .undo renames⟩

end Renumber
