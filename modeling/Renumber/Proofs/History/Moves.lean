import Renumber.History.Basic
import Renumber.Proofs.Run.Conduct

/-!
# Batches of renames as moves

A batch of renames means its moves in order, and undoing it means the moves back in the
opposite order. A batch whose moves led from one map of files to another can always be
undone, and one that can be redone stays so while the files stay where they are. When
either is cut short, the two parts of the batch belong to the map in the middle.
-/

namespace Renumber

variable {place : Path → Option Location} {kind : Path → Prop}

theorem FileMap.meaning_rename (files : FileMap) (source target : Path) :
    files.meaning place (.rename source target) = FileMap.step place files (source, target) := rfl

/-- Commands that are renames mean their moves. -/
theorem FileMap.foldlM_meaning {cs : List Command} (renames : ∀ c ∈ cs, c.RenamesIn kind)
    (files : FileMap) :
    cs.foldlM (FileMap.meaning place) files = FileMap.run place (cs.filterMap Batch.moveOf?) files := by
  induction cs generalizing files with
  | nil => rfl
  | cons c rest ih =>
      have rest_renames : ∀ c ∈ rest, c.RenamesIn kind :=
        fun c member => renames c (List.mem_cons_of_mem _ member)
      cases c with
      | rename source target =>
          rw [List.foldlM_cons, FileMap.meaning_rename]
          exact congrArg _ (funext fun between => ih rest_renames between)
      | _ => exact (renames _ List.mem_cons_self).elim

theorem Batch.filterMap_moveOf?_inverse (cs : List Command) :
    (cs.map Command.inverse).filterMap Batch.moveOf? =
      (cs.filterMap Batch.moveOf?).map Prod.swap := by
  induction cs with
  | nil => rfl
  | cons c rest ih =>
      cases c with
      | rename source target => simp [Command.inverse, Batch.moveOf?, ih]
      | _ => exact ih

namespace Run

/-- Both the commands that ran and those that are left come in the order of the run. -/
theorem parts_sublist {σ ω : Type} (m : Machine ω) (p : Policy σ ω) (inverse : Bool)
    (cs : List Command) (r : State σ ω) :
    (steps m p inverse cs r).1.done.Sublist cs ∧ (steps m p inverse cs r).1.left.Sublist cs := by
  induction cs generalizing r with
  | nil => exact ⟨List.nil_sublist _, List.nil_sublist _⟩
  | cons c rest ih =>
      rw [steps]
      split
      · exact ⟨List.nil_sublist _, List.Sublist.refl _⟩
      · simp only
        generalize (if inverse then c.inverse else c) = step
        split
        · exact ⟨(ih _).1.cons_cons c, (ih _).2.cons c⟩
        · split
          · exact ⟨List.nil_sublist _, List.Sublist.refl _⟩
          · exact ⟨(ih _).1.cons c, (ih _).2.cons_cons c⟩

end Run

/-- All commands of the batch rename between paths of a kind. -/
structure Batch.Renames (b : Batch) (paths : Path → Prop) : Prop where
  kind : b.kind = .rename
  commands : ∀ c ∈ b.commands, c.RenamesIn paths

theorem Batch.Renames.mono {b : Batch} {kind' : Path → Prop} (renames : b.Renames kind)
    (more : ∀ p, kind p → kind' p) : b.Renames kind' where
  kind := renames.kind
  commands c member := (renames.commands c member).mono more

/-- The paths that the moves of a batch are between. -/
theorem Batch.Renames.of_mem_moves {b : Batch} (renames : b.Renames kind) {m : Path × Path}
    (member : m ∈ b.moves) : kind m.1 ∧ kind m.2 := by
  obtain ⟨c, in_batch, move⟩ := List.mem_filterMap.1 member
  have paths := renames.commands c in_batch
  cases c with
  | rename source target =>
      cases move
      exact paths
  | _ => exact paths.elim

theorem Batch.Renames.isRecorded {b : Batch} (renames : b.Renames kind) : b.isRecorded = true := by
  rw [Batch.isRecorded, renames.kind]
  rfl

theorem Batch.Renames.part {b part : Batch} (renames : b.Renames kind) {cs : List Command}
    (some_part : b.part? cs = some part) (fewer : ∀ c ∈ cs, c ∈ b.commands) :
    part.Renames kind ∧ part.commands = cs := by
  rw [Batch.part?] at some_part
  split at some_part
  · cases some_part
  · cases some_part
    exact ⟨⟨renames.kind, fun c member => renames.commands c (fewer c member)⟩, rfl⟩

/-- A part that is absent has no moves. -/
theorem Batch.moves_part (b : Batch) (cs : List Command) :
    (b.part? cs).toList.flatMap Batch.moves = cs.filterMap Batch.moveOf? := by
  rw [Batch.part?]
  split
  · next empty => simp [List.isEmpty_iff.1 empty]
  · simp [Batch.moves]

/-- All of a batch that has commands is the batch. -/
theorem Batch.part?_all {b : Batch} (some_command : b.commands ≠ []) : b.part? b.commands = some b := by
  rw [Batch.part?, if_neg (mt List.isEmpty_iff.1 some_command)]

theorem Batch.Renames.of_mem_part {b part : Batch} (renames : b.Renames kind) {cs : List Command}
    (fewer : ∀ c ∈ cs, c ∈ b.commands) (member : part ∈ (b.part? cs).toList) :
    part.Renames kind :=
  (renames.part (Option.mem_toList.1 member) fewer).1

/-- Both parts of a batch that was split rename what it does. -/
theorem Batch.Renames.of_mem_split {b part : Batch} (renames : b.Renames kind) {parts : Run.Parts}
    (all : b.commands.Perm (parts.done ++ parts.left))
    (member : part ∈ (b.split parts).left.toList ++ (b.split parts).ran.toList) :
    part.Renames kind := by
  rcases List.mem_append.1 member with member | member
  · exact renames.of_mem_part (fun c left => all.mem_iff.2 (List.mem_append_right _ left)) member
  · exact renames.of_mem_part (fun c done => all.mem_iff.2 (List.mem_append_left _ done)) member

theorem Batch.moves_append {b : Batch} {front back : List Command} (parts : b.commands = front ++ back) :
    b.moves = front.filterMap Batch.moveOf? ++ back.filterMap Batch.moveOf? := by
  rw [Batch.moves, parts, List.filterMap_append]

/-- Commands of a batch that are run forward mean their moves. -/
theorem Batch.Renames.foldlM_forward {b : Batch} (renames : b.Renames kind) {cs : List Command}
    (fewer : ∀ c ∈ cs, c ∈ b.commands) (files : FileMap) :
    (cs.map (Run.directed false)).foldlM (FileMap.meaning place) files =
      FileMap.run place (cs.filterMap Batch.moveOf?) files := by
  have forward : Run.directed false = id := rfl
  rw [forward, List.map_id,
    FileMap.foldlM_meaning fun c member => renames.commands c (fewer c member)]

/-- Commands of a batch that are run backward mean their moves back. -/
theorem Batch.Renames.foldlM_backward {b : Batch} (renames : b.Renames kind) {cs : List Command}
    (fewer : ∀ c ∈ cs, c ∈ b.commands) (files : FileMap) :
    (cs.map (Run.directed true)).foldlM (FileMap.meaning place) files =
      FileMap.run place ((cs.filterMap Batch.moveOf?).map Prod.swap) files := by
  have inverse : Run.directed true = Command.inverse := rfl
  have named : ∀ c ∈ cs.map Command.inverse, c.RenamesIn kind :=
    List.forall_mem_map.2 fun c member => (renames.commands c (fewer c member)).inverse
  rw [inverse, FileMap.foldlM_meaning named, Batch.filterMap_moveOf?_inverse]

/-! ## Calm runs of batches -/

section

variable {σ : Type} {c : Conduct σ} {logs : Set Nat} {base : World} {b : Batch}
  {r : Run.State σ Workspace} {files : FileMap}

/-- What a batch is after it was run for the first time has led from the files before to
those after. -/
theorem Batch.execute_stands (calm : c.Calm logs) (renames : b.Renames base.FlatAt)
    (stands : World.StandsFor logs base r.place.world files) :
    ∃ files', World.StandsFor logs base
        (b.execute c.machine c.policy.onWorkspace r).2.place.world files' ∧
      FileMap.run base.place?
        ((b.execute c.machine c.policy.onWorkspace r).1.toList.flatMap Batch.moves) files =
          some files' ∧
      ∀ part ∈ (b.execute c.machine c.policy.onWorkspace r).1.toList,
        part.Renames base.FlatAt := by
  obtain ⟨files', done, stands'⟩ :=
    (calm.refines base).steps false
      (r := { r with report := { r.report with total := r.report.total + b.commands.length } })
      renames.commands stands
  have fewer := And.left <| Run.parts_sublist c.machine c.policy.onWorkspace false b.commands
    { r with report := { r.report with total := r.report.total + b.commands.length } }
  refine ⟨files', stands', ?_, fun part member => ?_⟩
  · rw [renames.foldlM_forward fun c member => fewer.subset member] at done
    exact (congrArg (FileMap.run base.place? · files) (b.moves_part _)).trans done
  · exact renames.of_mem_part (fun c member => fewer.subset member) member

/-- What an undone or redone part and the rest say about a run that could only be cut
short. -/
structure Batch.OnlyCutShort (b : Batch) (split : Split) (before after : Report) : Prop where
  failed : after.failed = before.failed
  aborted : after.aborted = before.aborted
  whole : after.cancelled = true ∨ split.left = none ∧ split.ran = b.part? b.commands

/-- Where nothing failed, and all was done unless the run was cancelled, it was only cut short. -/
theorem Batch.OnlyCutShort.of_split {b : Batch} {parts : Run.Parts} {before after : Report}
    (failed : after.failed = before.failed) (aborted : after.aborted = before.aborted)
    (all : parts.left = [] → parts.done = b.commands)
    (cancelled : parts.left = [] ∨ after.cancelled = true) :
    b.OnlyCutShort (b.split parts) before after := by
  refine ⟨failed, aborted, ?_⟩
  rcases cancelled with none_left | cancelled
  · refine .inr ⟨?_, ?_⟩
    · rw [Batch.split, none_left]
      rfl
    · rw [Batch.split, all none_left]
  · exact .inl cancelled

/-- A batch that led to the present files can be undone, and the part that is left has led
to the files that are reached. -/
theorem Batch.undo_stands (calm : c.Calm logs) (renames : b.Renames base.FlatAt)
    (stands : World.StandsFor logs base r.place.world files) {before : FileMap}
    (led : FileMap.run base.place? b.moves before = some files) :
    ∃ files', World.StandsFor logs base
        (b.undo c.machine c.policy.onWorkspace r).2.place.world files' ∧
      FileMap.run base.place?
        ((b.undo c.machine c.policy.onWorkspace r).1.left.toList.flatMap Batch.moves) before =
          some files' ∧
      FileMap.run base.place?
        ((b.undo c.machine c.policy.onWorkspace r).1.ran.toList.flatMap Batch.moves) files' =
          some files ∧
      (∀ part ∈ (b.undo c.machine c.policy.onWorkspace r).1.left.toList ++
        (b.undo c.machine c.policy.onWorkspace r).1.ran.toList, part.Renames base.FlatAt) ∧
      b.OnlyCutShort (b.undo c.machine c.policy.onWorkspace r).1 r.report
        (b.undo c.machine c.policy.onWorkspace r).2.report := by
  have backward : ∀ c ∈ b.commands.reverse, (Run.directed true c).RenamesIn base.FlatAt :=
    fun c member => (renames.commands c (List.mem_reverse.1 member)).directed true
  -- The whole batch can be undone, so the run is at most cut short.
  have possible : (b.commands.reverse.map (Run.directed true)).foldlM
      (FileMap.meaning base.place?) files = some before := by
    rw [renames.foldlM_backward fun c member => List.mem_reverse.1 member, List.filterMap_reverse]
    exact FileMap.run_back led
  let start : Run.State σ Workspace :=
    { r with report := { r.report with total := r.report.total + b.commands.reverse.length } }
  obtain ⟨files', done, stands'⟩ := (calm.refines base).steps true (r := start) backward stands
  have cut := (calm.refines base).steps_of_possible true (r := start) backward stands possible
  have result : b.undo c.machine c.policy.onWorkspace r =
      (b.split ⟨(Run.steps c.machine c.policy.onWorkspace true b.commands.reverse start).1.done.reverse,
        (Run.steps c.machine c.policy.onWorkspace true b.commands.reverse start).1.left.reverse⟩,
        (Run.steps c.machine c.policy.onWorkspace true b.commands.reverse start).2) := rfl
  rw [result]
  generalize Run.steps c.machine c.policy.onWorkspace true b.commands.reverse start = out at *
  obtain ⟨⟨did, left⟩, r'⟩ := out
  have parts : b.commands = left.reverse ++ did.reverse := by
    rw [← List.reverse_append, cut.split, List.reverse_reverse]
  obtain ⟨between, first, last⟩ := FileMap.run_append_eq_some.1 (Batch.moves_append parts ▸ led)
  have reached : files' = between := by
    have back := FileMap.run_back last
    rw [← List.filterMap_reverse, List.reverse_reverse] at back
    rw [renames.foldlM_backward fun c member => by rw [parts]; simp [member], back] at done
    exact (Option.some.inj done).symm
  subst reached
  have all : b.commands.Perm (did.reverse ++ left.reverse) := parts ▸ List.perm_append_comm
  refine ⟨files', stands', ?_, ?_, fun part member => renames.of_mem_split all member,
    .of_split cut.failed cut.aborted (fun none_left => ?_) ?_⟩
  · rw [Batch.split, b.moves_part]
    exact first
  · rw [Batch.split, b.moves_part]
    exact last
  · have nothing : left.reverse = [] := none_left
    rw [parts, nothing, List.nil_append]
  · exact cut.cancelled.imp_left List.reverse_eq_nil_iff.2

/-- A batch whose moves are possible can be redone, and the moves of the part that is left
are possible from the files that are reached. -/
theorem Batch.redo_stands (calm : c.Calm logs) (renames : b.Renames base.FlatAt)
    (stands : World.StandsFor logs base r.place.world files) {after : FileMap}
    (leads : FileMap.run base.place? b.moves files = some after) :
    ∃ files', World.StandsFor logs base
        (b.redo c.machine c.policy.onWorkspace r).2.place.world files' ∧
      FileMap.run base.place?
        ((b.redo c.machine c.policy.onWorkspace r).1.ran.toList.flatMap Batch.moves) files =
          some files' ∧
      FileMap.run base.place?
        ((b.redo c.machine c.policy.onWorkspace r).1.left.toList.flatMap Batch.moves) files' =
          some after ∧
      (∀ part ∈ (b.redo c.machine c.policy.onWorkspace r).1.left.toList ++
        (b.redo c.machine c.policy.onWorkspace r).1.ran.toList, part.Renames base.FlatAt) ∧
      b.OnlyCutShort (b.redo c.machine c.policy.onWorkspace r).1 r.report
        (b.redo c.machine c.policy.onWorkspace r).2.report := by
  let start : Run.State σ Workspace :=
    { r with report := { r.report with total := r.report.total + b.commands.length } }
  have possible := (renames.foldlM_forward (fun _ => id) files).trans leads
  obtain ⟨files', done, stands'⟩ :=
    (calm.refines base).steps false (r := start) renames.commands stands
  have cut := (calm.refines base).steps_of_possible false (r := start)
    renames.commands stands possible
  have result : b.redo c.machine c.policy.onWorkspace r =
      (b.split (Run.steps c.machine c.policy.onWorkspace false b.commands start).1,
        (Run.steps c.machine c.policy.onWorkspace false b.commands start).2) := rfl
  rw [result]
  generalize Run.steps c.machine c.policy.onWorkspace false b.commands start = out at *
  obtain ⟨⟨did, left⟩, r'⟩ := out
  have parts : b.commands = did ++ left := cut.split.symm
  obtain ⟨between, first, last⟩ := FileMap.run_append_eq_some.1 (Batch.moves_append parts ▸ leads)
  have reached : files' = between := by
    rw [renames.foldlM_forward fun c member => by rw [parts]; simp [member], first] at done
    exact (Option.some.inj done).symm
  subst reached
  have all : b.commands.Perm (did ++ left) := .of_eq parts
  refine ⟨files', stands', ?_, ?_, fun part member => renames.of_mem_split all member,
    .of_split cut.failed cut.aborted (fun none_left => ?_) cut.cancelled⟩
  · rw [Batch.split, b.moves_part]
    exact first
  · rw [Batch.split, b.moves_part]
    exact last
  · have nothing : left = [] := none_left
    rw [parts, nothing, List.append_nil]

/-- An undo that nobody stops is not cancelled. -/
theorem Batch.undo_not_cancelled (calm : c.Calm logs) (renames : b.Renames base.FlatAt)
    (stands : World.StandsFor logs base r.place.world files) (unheeded : c.heedsStop = false) :
    (b.undo c.machine c.policy.onWorkspace r).2.report.cancelled = r.report.cancelled := by
  refine (calm.refines base).not_cancelled true
    (fun c member => (renames.commands c (List.mem_reverse.1 member)).directed true)
    (r := { r with report := { r.report with total := r.report.total + b.commands.reverse.length } })
    stands fun ws _ _ => ?_
  simp [Conduct.machine, Conduct.stopped, unheeded]

end

end Renumber
