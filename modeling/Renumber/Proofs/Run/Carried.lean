import Renumber.Proofs.History.Steps
import Renumber.Proofs.Run.Tally
import Renumber.Proofs.Session.Kept
import Renumber.Proofs.World.Level

/-!
# What a run moves

The commands of a batch are all renames or they move nothing at all. A calm run of renames
moves files as the renames say that ran, one after the other, and any other calm run leaves
all files where they are. So what ran of a batch tells in every case where files went.
-/

namespace Renumber

open Outcome

/-! ## Commands that move nothing -/

/-- Building the wanted file states moves nothing. -/
theorem WorkingSet.touchItems_still (set : WorkingSet) : Along World.Still set.touchItems := by
  intro w
  rw [set.touchItems_world]
  exact .refl w

/-- A workspace in which no file moved. -/
def Workspace.Still (ws ws' : Workspace) : Prop :=
  World.Still ws.world ws'.world

theorem Workspace.Still.trans (u v w : Workspace) (first : u.Still v) (second : v.Still w) : u.Still w :=
  World.Still.trans u.world v.world w.world first second

namespace Command

/-- A command that is no rename moves nothing. -/
theorem execute_still {command : Command} (moveless : Batch.moveOf? command = none) :
    Along Workspace.Still command.execute := by
  have edit : command.isRecorded = false → Along Workspace.Still command.execute := by
    intro edit ws
    rw [Workspace.Still, execute_world edit ws]
    exact .refl ws.world
  cases command with
  | rename => cases moveless
  | touch former target => exact fun ws => target.apply_still ws.world
  | _ => exact edit rfl

theorem moveOf?_directed (inverse : Bool) {command : Command} (moveless : Batch.moveOf? command = none) :
    Batch.moveOf? (Run.directed inverse command) = none := by
  cases command with
  | rename => cases moveless
  | _ => cases inverse <;> rfl

end Command

/-! ## Runs -/

section

variable {σ : Type} {c : Conduct σ} {logs : Set Nat} {r : Run.State σ Workspace} {cs : List Command}
  {paths : Path → Prop}

/-- A calm run of commands that move nothing moves nothing. -/
theorem Conduct.Calm.run_still (calm : c.Calm logs) (inverse : Bool)
    (moveless : ∀ command ∈ cs, Batch.moveOf? command = none) :
    World.Still r.place.world
      (Run.commands c.machine c.policy.onWorkspace inverse cs r).2.place.world := by
  have execute : ∀ (command : Command) (ws : Workspace), Batch.moveOf? command = none →
      ws.Still (c.machine.execute command ws).2 :=
    fun command ws moveless => command.execute_still moveless ws
  refine Run.steps_related (fun ws => .refl ws.world) Workspace.Still.trans execute ?_ ?_ ?_ ?_
    { r with report := { r.report with total := r.report.total + cs.length } }
  · exact fun text ws => (calm.note text ws.world).still
  · exact fun ws => .of_disk_eq (c.stopped_disk ws.world).1 (c.stopped_disk ws.world).2
  · intro command failure s ws
    exact .of_disk_eq (calm.disk command failure s ws.world) (calm.cwd command failure s ws.world)
  · exact fun command member => Command.moveOf?_directed inverse (moveless command member)

/-- A calm run of renames moves files as those of them say that ran. -/
theorem Conduct.Calm.run_carries (calm : c.Calm logs) (inverse : Bool)
    (level : r.place.world.Level paths)
    (uniform : (∀ command ∈ cs, command.RenamesIn paths) ∨
      ∀ command ∈ cs, Batch.moveOf? command = none) :
    World.Carries (((Run.commands c.machine c.policy.onWorkspace inverse cs r).1.done.map
        (Run.directed inverse)).filterMap Batch.moveOf?) r.place.world
      (Run.commands c.machine c.policy.onWorkspace inverse cs r).2.place.world := by
  have fewer := And.left <| Run.parts_sublist c.machine c.policy.onWorkspace inverse cs
    { r with report := { r.report with total := r.report.total + cs.length } }
  obtain renames | moveless := uniform
  · have flat : ∀ command ∈ cs, (Run.directed inverse command).RenamesIn r.place.world.FlatAt := by
      intro command member
      exact ((renames command member).mono level.flat).directed inverse
    obtain ⟨files', done, stands⟩ := (calm.refines r.place.world).steps inverse
      (r := { r with report := { r.report with total := r.report.total + cs.length } }) flat
      ⟨level.tree, rfl, .refl _⟩
    rw [FileMap.foldlM_meaning (List.forall_mem_map.2 fun command member =>
      flat command (fewer.subset member))] at done
    rw [← stands.files] at done
    exact ⟨stands.tree, stands.shuffles.cwd, stands.shuffles.ways, done⟩
  · have none_moved : ((Run.commands c.machine c.policy.onWorkspace inverse cs r).1.done.map
        (Run.directed inverse)).filterMap Batch.moveOf? = [] := by
      rw [List.filterMap_eq_nil_iff, List.forall_mem_map]
      exact fun command member => Command.moveOf?_directed inverse (moveless command (fewer.subset member))
    rw [none_moved]
    exact (calm.run_still inverse moveless).carries level.tree

end

/-! ## Batches -/

/-- A batch of renames between some paths, or one that moves no files. -/
def Batch.Uniform (b : Batch) (paths : Path → Prop) : Prop :=
  b.Renames paths ∨ b.kind ≠ .rename ∧ ∀ command ∈ b.commands, Batch.moveOf? command = none

namespace Batch

variable {b part : Batch} {paths : Path → Prop}

theorem Uniform.partOf (uniform : b.Uniform paths) (part_of : part.PartOf b) : part.Uniform paths := by
  have fewer := part_of.commands.subset
  obtain renames | ⟨kind, moveless⟩ := uniform
  · exact .inl ⟨part_of.kind.trans renames.kind, fun command member =>
      renames.commands command (fewer member)⟩
  · exact .inr ⟨part_of.kind ▸ kind, fun command member => moveless command (fewer member)⟩

theorem Uniform.commands (uniform : b.Uniform paths) :
    (∀ command ∈ b.commands, command.RenamesIn paths) ∨
      ∀ command ∈ b.commands, Batch.moveOf? command = none :=
  uniform.imp Renames.commands And.right

theorem moves_of_moveless (moveless : ∀ command ∈ b.commands, Batch.moveOf? command = none) :
    b.moves = [] :=
  List.filterMap_eq_nil_iff.2 moveless

/-- All moves of the batch are between the paths. -/
theorem Uniform.between (uniform : b.Uniform paths) : ∀ m ∈ b.moves, paths m.1 ∧ paths m.2 := by
  intro m member
  obtain renames | ⟨-, moveless⟩ := uniform
  · exact renames.of_mem_moves member
  · rw [moves_of_moveless moveless] at member
    cases member

end Batch

namespace History

variable {σ ω : Type} {h : History} {b : Batch} {paths : Path → Prop}

/-- The moves that running a batch for a call makes. -/
def Call.moves : Call → Batch → List (Path × Path)
  | .undo => Batch.movesUndone
  | _ => Batch.moves

theorem Call.between (call : Call) (uniform : b.Uniform paths) :
    ∀ m ∈ call.moves b, paths m.1 ∧ paths m.2 := by
  intro m member
  cases call with
  | execute | redo => exact uniform.between m member
  | undo =>
      obtain ⟨n, in_moves, rfl⟩ := List.mem_map.1 member
      exact (uniform.between n (List.mem_reverse.1 in_moves)).symm

theorem Call.moves_of_moveless (call : Call)
    (moveless : ∀ command ∈ b.commands, Batch.moveOf? command = none) : call.moves b = [] := by
  have none_moved := Batch.moves_of_moveless moveless
  cases call with
  | execute | redo => exact none_moved
  | undo =>
      rw [moves, Batch.movesUndone, none_moved]
      rfl

/-- The commands of a call are uniform, as the batches are that they come from. -/
theorem running_uniform (call : Call) (new : ∀ b, call = .execute b → b.Uniform paths)
    (batches : ∀ b ∈ h.batches, b.Uniform paths) :
    (∀ command ∈ (h.running call).2, command.RenamesIn paths) ∨
      ∀ command ∈ (h.running call).2, Batch.moveOf? command = none := by
  obtain ⟨done, undone⟩ := List.forall_mem_append.1 batches
  cases call with
  | execute b => exact (new b rfl).commands
  | undo =>
      rw [running, toUndo?]
      cases newest : h.done with
      | nil => exact .inl (List.forall_mem_nil _)
      | cons b rest =>
          have own := (done b (newest ▸ List.mem_cons_self)).commands
          simpa only [List.head?_cons, Option.elim_some, List.mem_reverse] using own
  | redo =>
      rw [running, toRedo?]
      cases newest : h.undone with
      | nil => exact .inl (List.forall_mem_nil _)
      | cons b rest => exact (undone b (newest ▸ List.mem_cons_self)).commands

theorem movesUndone_part (b : Batch) (cs : List Command) :
    (b.part? cs).toList.flatMap Batch.movesUndone =
      (cs.filterMap Batch.moveOf?).reverse.map Prod.swap := by
  rw [← b.moves_part, Batch.part?]
  split
  · rfl
  · simp [Batch.movesUndone]

/-- What a call gives back tells which moves ran. -/
theorem ran?_moves (h : History) (m : Machine ω) (p : Policy σ ω) (r : Run.State σ ω) (call : Call) :
    (h.ran? m p r call).toList.flatMap call.moves =
      ((Run.commands m p (h.running call).1 (h.running call).2 r).1.done.map
        (Run.directed (h.running call).1)).filterMap Batch.moveOf? := by
  have forward : ∀ cs : List Command, cs.map (Run.directed false) = cs := fun cs => List.map_id cs
  have backward : Run.directed true = Command.inverse := rfl
  cases call with
  | execute b =>
      rw [running, forward]
      exact b.moves_part _
  | undo =>
      rw [running, backward, Batch.filterMap_moveOf?_inverse, toUndo?, ran?, undo]
      cases h.done with
      | nil => rfl
      | cons b rest =>
          have ran : (b.undo m p r).1.ran =
              b.part? (Run.commands m p true b.commands.reverse r).1.done.reverse := rfl
          have moves := movesUndone_part b (Run.commands m p true b.commands.reverse r).1.done.reverse
          rw [← ran, List.filterMap_reverse, List.reverse_reverse] at moves
          dsimp only [List.head?_cons, Option.elim_some]
          rw [← moves]
          cases (b.undo m p r).1.ran <;> rfl
  | redo =>
      rw [running, forward, toRedo?, ran?, redo]
      cases h.undone with
      | nil => rfl
      | cons b rest =>
          have ran : (b.redo m p r).1.ran =
              b.part? (Run.commands m p false b.commands r).1.done := rfl
          have moves := b.moves_part (Run.commands m p false b.commands r).1.done
          rw [← ran] at moves
          dsimp only [List.head?_cons, Option.elim_some]
          rw [← moves]
          cases (b.redo m p r).1.ran <;> rfl

end History

end Renumber
