import Renumber.Proofs.History.Moves

/-!
# Batches that run as a whole

Where nobody stops a run of renames and all its moves are possible in order, the whole
batch runs. No command fails, so it does not matter what the policy is.
-/

namespace Renumber

variable {σ : Type} {c : Conduct σ} {logs : Set Nat} {b : Batch} {r : Run.State σ Workspace}
  {after : FileMap}

/-- The account after some commands have all run. -/
def Report.afterAll (report : Report) (n : Nat) : Report :=
  { report with total := report.total + n, executed := report.executed + n }

namespace Conduct

/-- The log of the conduct is known, and nobody stops a run in this world. -/
structure Free (c : Conduct σ) (logs : Set Nat) (w : World) : Prop where
  log : ∀ log, c.log = some log → log.file ∈ logs
  unstopped : c.heedsStop = false ∨ w.interrupt = none

/-- Renames, or their inverses, whose moves are possible in order are all done. -/
theorem Free.commands (free : c.Free logs r.place.world) (tree : r.place.world.disk.IsTree)
    {inverse : Bool} {cs : List Command}
    (names : ∀ c ∈ cs, (Run.directed inverse c).RenamesIn r.place.world.FlatAt)
    (possible : FileMap.run r.place.world.place?
      ((cs.map (Run.directed inverse)).filterMap Batch.moveOf?) r.place.world.files = some after) :
    ∃ ws, World.StandsFor logs r.place.world ws.world after ∧
      ws.world.interrupt = r.place.world.interrupt ∧
      Run.commands c.machine c.policy.onWorkspace inverse cs r =
        (⟨cs, []⟩, ⟨r.answers, ws, r.report.afterAll cs.length⟩) := by
  have named : ∀ c ∈ cs.map (Run.directed inverse), c.RenamesIn r.place.world.FlatAt := by
    intro c member
    obtain ⟨c', in_cs, rfl⟩ := List.mem_map.1 member
    exact names c' in_cs
  rw [← FileMap.foldlM_meaning named] at possible
  have goes_on : ∀ (ws : Workspace) (files : FileMap),
      World.StandsFor logs r.place.world ws.world files ∧
        ws.world.interrupt = r.place.world.interrupt →
      ∃ ws', c.machine.stopped ws = (false, ws') ∧
        World.StandsFor logs r.place.world ws'.world files ∧
          ws'.world.interrupt = r.place.world.interrupt := by
    intro ws files stands
    refine ⟨ws, Conduct.goes_on ?_, stands⟩
    rw [stands.2]
    exact free.unstopped
  have start : World.StandsFor logs r.place.world r.place.world r.place.world.files :=
    ⟨tree, rfl, .refl _⟩
  obtain ⟨ws, stands, all⟩ := (Conduct.does free.log r.place.world).steps c.policy.onWorkspace
    inverse goes_on
    (r := { r with report := { r.report with total := r.report.total + cs.length } })
    names ⟨start, rfl⟩ possible
  exact ⟨ws, stands.1, stands.2, all⟩

end Conduct

namespace Batch

/-- A batch of renames whose moves are possible runs as a whole. -/
theorem execute_whole (free : c.Free logs r.place.world) (tree : r.place.world.disk.IsTree)
    (renames : b.Renames r.place.world.FlatAt) (some_command : b.commands ≠ [])
    (possible : FileMap.run r.place.world.place? b.moves r.place.world.files = some after) :
    ∃ ws, World.StandsFor logs r.place.world ws.world after ∧
      ws.world.interrupt = r.place.world.interrupt ∧
      b.execute c.machine c.policy.onWorkspace r =
        (some b, ⟨r.answers, ws, r.report.afterAll b.size⟩) := by
  have forward : b.commands.map (Run.directed false) = b.commands := List.map_id _
  have names : ∀ c ∈ b.commands, (Run.directed false c).RenamesIn r.place.world.FlatAt :=
    renames.commands
  obtain ⟨ws, stands, interrupt, all⟩ := free.commands tree names (by rw [forward]; exact possible)
  refine ⟨ws, stands, interrupt, ?_⟩
  rw [execute, all]
  simp only
  rw [part?_all some_command]
  rfl

/-- A batch of renames whose moves are possible is redone as a whole. -/
theorem redo_whole (free : c.Free logs r.place.world) (tree : r.place.world.disk.IsTree)
    (renames : b.Renames r.place.world.FlatAt) (some_command : b.commands ≠ [])
    (possible : FileMap.run r.place.world.place? b.moves r.place.world.files = some after) :
    ∃ ws, World.StandsFor logs r.place.world ws.world after ∧
      ws.world.interrupt = r.place.world.interrupt ∧
      b.redo c.machine c.policy.onWorkspace r =
        (⟨some b, none⟩, ⟨r.answers, ws, r.report.afterAll b.size⟩) := by
  have forward : b.commands.map (Run.directed false) = b.commands := List.map_id _
  have names : ∀ c ∈ b.commands, (Run.directed false c).RenamesIn r.place.world.FlatAt :=
    renames.commands
  obtain ⟨ws, stands, interrupt, all⟩ := free.commands tree names (by rw [forward]; exact possible)
  refine ⟨ws, stands, interrupt, ?_⟩
  rw [redo, all]
  simp only
  rw [Batch.split, part?_all some_command]
  rfl

/-- A batch of renames whose moves back are possible is undone as a whole. -/
theorem undo_whole (free : c.Free logs r.place.world) (tree : r.place.world.disk.IsTree)
    (renames : b.Renames r.place.world.FlatAt) (some_command : b.commands ≠ [])
    (possible : FileMap.run r.place.world.place? b.movesUndone r.place.world.files = some after) :
    ∃ ws, World.StandsFor logs r.place.world ws.world after ∧
      ws.world.interrupt = r.place.world.interrupt ∧
      b.undo c.machine c.policy.onWorkspace r =
        (⟨some b, none⟩, ⟨r.answers, ws, r.report.afterAll b.size⟩) := by
  have backward : (b.commands.reverse.map (Run.directed true)).filterMap moveOf? =
      b.movesUndone := by
    have inverse : Run.directed true = Command.inverse := rfl
    rw [inverse, filterMap_moveOf?_inverse, List.filterMap_reverse]
    rfl
  have names : ∀ c ∈ b.commands.reverse,
      (Run.directed true c).RenamesIn r.place.world.FlatAt := by
    intro c member
    exact (renames.commands c (List.mem_reverse.1 member)).directed true
  obtain ⟨ws, stands, interrupt, all⟩ := free.commands tree names (by rw [backward]; exact possible)
  refine ⟨ws, stands, interrupt, ?_⟩
  rw [undo, all, List.length_reverse]
  simp only
  rw [List.reverse_reverse, Batch.split, part?_all some_command]
  rfl

end Batch

end Renumber
