import Mathlib.Logic.Relation
import Renumber.Proofs.History.Steps
import Renumber.Proofs.History.Moves
import Renumber.Proofs.World.Renamed
import Renumber.Proofs.World.Sample

/-!
# Histories of renames are linear

A history of renames starts empty, and only it moves files. Whatever it is asked to
execute, undo and redo, and wherever that is cut short, its stacks fit the files: the
moves of all done batches lead from some map of files to the present one, and the moves
of the undone batches are possible from there. So undoing and redoing never fail, and
unless batches were forgotten, the map at the start of the done ones is the first one.
-/

namespace Renumber

/-- Two worlds with the same files, apart from the data of logs. -/
structure World.SameFiles (logs : Set Nat) (w w' : World) : Prop where
  cwd : w'.cwd = w.cwd
  shape : w.disk.SameShape w'.disk
  data : ∀ id, id ∉ logs → w'.disk.file? id = w.disk.file? id

variable {logs : Set Nat}

/-- Of two worlds in which only files moved since a base, one has the files of the other
when the maps of files are the same. -/
theorem World.StandsFor.sameFiles {base w w' : World} {files : FileMap}
    (stands : StandsFor logs base w files) (stands' : StandsFor logs base w' files) :
    SameFiles logs w w' where
  cwd := stands'.shuffles.cwd.trans stands.shuffles.cwd.symm
  shape := (stands.shuffles.ways.symm.trans stands'.shuffles.ways).sameShape
    (stands'.files.trans stands.files.symm)
  data id other := (stands'.shuffles.data id other).trans (stands.shuffles.data id other).symm

/-- Where the moves are possible for the map of files, the renames all succeed. -/
theorem World.StandsFor.renameAll {base w : World} {files files' : FileMap}
    {moves : List (Path × Path)} (stands : StandsFor logs base w files)
    (flat : ∀ m ∈ moves, base.FlatAt m.2)
    (possible : FileMap.run base.place? moves files = some files') :
    ∃ w', (World.renameAll moves).run.run w = (.ok (), w') ∧ StandsFor logs base w' files' := by
  obtain ⟨tree, rfl, shuffles⟩ := stands
  obtain ⟨w', done, tree', files, -, later⟩ :=
    renameAll_of_run logs tree (fun m member => shuffles.flatAt (flat m member))
      (shuffles.place? ▸ possible)
  exact ⟨w', done, tree', files, shuffles.trans later⟩

namespace History

variable {σ ω : Type}

/-- The moves of the done batches, oldest first. -/
def movesDone (h : History) : List (Path × Path) :=
  h.done.reverse.flatMap Batch.moves

/-- The moves that undo the done batches, newest first. -/
def movesBack (h : History) : List (Path × Path) :=
  h.done.flatMap Batch.movesUndone

/-- The moves of the undone batches, in the order in which they would be redone. -/
def movesAhead (h : History) : List (Path × Path) :=
  h.undone.flatMap Batch.moves

theorem movesBack_eq (h : History) : h.movesBack = h.movesDone.reverse.map Prod.swap := by
  rw [movesBack, movesDone]
  induction h.done with
  | nil => rfl
  | cons b rest ih => simp [Batch.movesUndone, ih]

/-- A further batch would make the history forget its oldest one. -/
def isFull (h : History) : Bool :=
  decide (max h.limit 1 ≤ h.done.length)

/-- Undo the newest batch several times. -/
def undoTimes (m : Machine ω) (p : Policy σ ω) :
    Nat → History → Run.State σ ω → History × Run.State σ ω
  | 0, h, r => (h, r)
  | n + 1, h, r =>
    let (_, h, r) := h.undo m p r
    undoTimes m p n h r

/-- There is nothing to forget when all batches are recorded. -/
theorem settle_of_recorded {h : History} (b : Batch)
    (done : ∀ b ∈ h.done, b.isRecorded = true) (undone : ∀ b ∈ h.undone, b.isRecorded = true) :
    h.settle b = h := by
  rw [settle]
  split
  · rw [dropEdits, List.filter_eq_self.2 done, List.filter_eq_self.2 undone]
  · rfl

/-- What is undone of the newest done batch is first to be redone, and the rest stays
done. -/
theorem undo_of_recorded {m : Machine ω} {p : Policy σ ω} {b : Batch} {rest undone : List Batch}
    (limit : Nat) {r : Run.State σ ω} (rest_recorded : ∀ b ∈ rest, b.isRecorded = true)
    (undone_recorded : ∀ b ∈ undone, b.isRecorded = true)
    (left_recorded : ∀ part ∈ (b.undo m p r).1.left.toList, part.isRecorded = true) :
    undo ⟨b :: rest, undone, limit⟩ m p r =
      ((b.undo m p r).1.ran,
        ⟨(b.undo m p r).1.left.toList ++ rest, (b.undo m p r).1.ran.toList ++ undone, limit⟩,
        (b.undo m p r).2) := by
  rw [undo]
  simp only
  generalize b.undo m p r = out at *
  obtain ⟨⟨ran, left⟩, r'⟩ := out
  cases ran with
  | none => rfl
  | some ran =>
      have settled : settle ⟨left.toList ++ rest, undone, limit⟩ b =
          ⟨left.toList ++ rest, undone, limit⟩ := by
        refine settle_of_recorded b (fun b member => ?_) undone_recorded
        exact (List.mem_append.1 member).elim (left_recorded b) (rest_recorded b)
      simp only [settled]
      rfl

/-- What is redone of the newest undone batch is the newest done one, and the rest stays
undone. -/
theorem redo_of_recorded {m : Machine ω} {p : Policy σ ω} {b : Batch} {done rest : List Batch}
    (limit : Nat) {r : Run.State σ ω} (done_recorded : ∀ b ∈ done, b.isRecorded = true)
    (rest_recorded : ∀ b ∈ rest, b.isRecorded = true)
    (left_recorded : ∀ part ∈ (b.redo m p r).1.left.toList, part.isRecorded = true) :
    redo ⟨done, b :: rest, limit⟩ m p r =
      ((b.redo m p r).1.ran,
        ⟨match (b.redo m p r).1.ran with
          | none => done
          | some ran => (ran :: done).take (max limit 1),
          (b.redo m p r).1.left.toList ++ rest, limit⟩,
        (b.redo m p r).2) := by
  rw [redo]
  simp only
  generalize b.redo m p r = out at *
  obtain ⟨⟨ran, left⟩, r'⟩ := out
  cases ran with
  | none => rfl
  | some ran =>
      have settled : settle ⟨done, left.toList ++ rest, limit⟩ b =
          ⟨done, left.toList ++ rest, limit⟩ := by
        refine settle_of_recorded b done_recorded fun b member => ?_
        exact (List.mem_append.1 member).elim (left_recorded b) (rest_recorded b)
      simp only [settled]
      rfl

/-- Whatever led to the present still does from some later start when the oldest batches
are forgotten. -/
theorem run_take {place : Path → Option Location} {done : List Batch} {before after : FileMap}
    (n : Nat) (led : FileMap.run place (done.reverse.flatMap Batch.moves) before = some after) :
    ∃ later, FileMap.run place ((done.take n).reverse.flatMap Batch.moves) later = some after ∧
      (done.length ≤ n → later = before) := by
  by_cases fits : done.length ≤ n
  · exact ⟨before, by rwa [List.take_of_length_le fits], fun _ => rfl⟩
  · rw [← List.take_append_drop n done, List.reverse_append, List.flatMap_append] at led
    obtain ⟨later, -, rest⟩ := FileMap.run_append_eq_some.1 led
    exact ⟨later, rest, fun fits' => absurd fits' fits⟩

/-- A batch joins the done ones, and the oldest may be forgotten. -/
theorem run_newest {place : Path → Option Location} {done : List Batch} {newest : Batch}
    {before between after first : FileMap} {pruned : Bool} (limit : Nat)
    (led : FileMap.run place (done.reverse.flatMap Batch.moves) before = some between)
    (kept : pruned = false → before = first)
    (newest_led : FileMap.run place newest.moves between = some after) :
    ∃ later, FileMap.run place
        (((newest :: done).take (max limit 1)).reverse.flatMap Batch.moves) later = some after ∧
      ((pruned || decide (max limit 1 ≤ done.length)) = false → later = first) := by
  have led' : FileMap.run place ((newest :: done).reverse.flatMap Batch.moves) before =
      some after := by
    rw [List.reverse_cons, List.flatMap_append, FileMap.run_append_eq_some, List.flatMap_singleton]
    exact ⟨between, led, newest_led⟩
  obtain ⟨later, led_later, all⟩ := run_take (max limit 1) led'
  refine ⟨later, led_later, fun whole => ?_⟩
  simp only [Bool.or_eq_false_iff, decide_eq_false_iff_not] at whole
  rw [all (by simp only [List.length_cons]; omega), kept whole.1]

end History

/-! ## Stages of a history -/

/-- A history and the workspace that its batches ran on. -/
structure Stage where
  history : History
  place : Workspace
  /-- Done batches were forgotten. -/
  pruned : Bool := false

namespace Stage

variable {σ : Type}

/-- A run starts where the stage stands. Only the files count: the account, the policy and
the wish to stop may be any, and time may have passed. -/
structure Starts (s : Stage) (r : Run.State σ Workspace) : Prop where
  disk : r.place.world.disk = s.place.world.disk
  cwd : r.place.world.cwd = s.place.world.cwd

/-- The stage after a batch was executed. -/
def execute (s : Stage) (c : Conduct σ) (b : Batch) (r : Run.State σ Workspace) : Stage :=
  let (ran, history, r) := s.history.execute c.machine c.policy.onWorkspace b r
  ⟨history, r.place, s.pruned || (ran && s.history.isFull)⟩

/-- The stage after the newest done batch was undone. -/
def undo (s : Stage) (c : Conduct σ) (r : Run.State σ Workspace) : Stage :=
  let (_, history, r) := s.history.undo c.machine c.policy.onWorkspace r
  ⟨history, r.place, s.pruned⟩

/-- The stage after the newest undone batch was redone. -/
def redo (s : Stage) (c : Conduct σ) (r : Run.State σ Workspace) : Stage :=
  let (ran, history, r) := s.history.redo c.machine c.policy.onWorkspace r
  ⟨history, r.place, s.pruned || (ran.isSome && s.history.isFull)⟩

/-- One call of a history of renames, under any calm conduct. -/
inductive Step (logs : Set Nat) (paths : Path → Prop) : Stage → Stage → Prop
  | execute {σ : Type} {s : Stage} {c : Conduct σ} {b : Batch} {r : Run.State σ Workspace}
      (calm : c.Calm logs) (renames : b.Renames paths) (starts : s.Starts r) :
      Step logs paths s (s.execute c b r)
  | undo {σ : Type} {s : Stage} {c : Conduct σ} {r : Run.State σ Workspace}
      (calm : c.Calm logs) (starts : s.Starts r) : Step logs paths s (s.undo c r)
  | redo {σ : Type} {s : Stage} {c : Conduct σ} {r : Run.State σ Workspace}
      (calm : c.Calm logs) (starts : s.Starts r) : Step logs paths s (s.redo c r)

/-- The stacks of a history fit the files of its world, which moved about since a first
world. -/
structure Fits (logs : Set Nat) (first : World) (s : Stage) : Prop where
  done : ∀ b ∈ s.history.done, b.Renames first.FlatAt
  undone : ∀ b ∈ s.history.undone, b.Renames first.FlatAt
  stands : World.StandsFor logs first s.place.world s.place.world.files
  past : ∃ files, FileMap.run first.place? s.history.movesDone files =
    some s.place.world.files ∧ (s.pruned = false → files = first.files)
  future : ∃ files, FileMap.run first.place? s.history.movesAhead s.place.world.files = some files

variable {first : World} {s : Stage} {c : Conduct σ} {b : Batch} {r : Run.State σ Workspace}

theorem Starts.standsFor (starts : s.Starts r) {files : FileMap}
    (stands : World.StandsFor logs first s.place.world files) :
    World.StandsFor logs first r.place.world files :=
  stands.of_disk_eq starts.disk starts.cwd

/-- The stacks of an empty history fit any world. -/
theorem Fits.start {ws : Workspace} {limit : Nat} (tree : ws.world.disk.IsTree) :
    Fits logs ws.world ⟨{ limit }, ws, false⟩ where
  done _ member := by cases member
  undone _ member := by cases member
  stands := ⟨tree, rfl, .refl _⟩
  past := ⟨_, rfl, fun _ => rfl⟩
  future := ⟨_, rfl⟩

/-- Where no file moved the same stacks fit. -/
theorem Fits.unmoved (fits : s.Fits logs first) {ws : Workspace} {pruned : Bool}
    (stands : World.StandsFor logs first ws.world s.place.world.files)
    (whole : pruned = false → s.pruned = false) :
    Fits logs first ⟨s.history, ws, pruned⟩ := by
  have same : ws.world.files = s.place.world.files := stands.files
  obtain ⟨before, led, kept⟩ := fits.past
  refine ⟨fits.done, fits.undone, ?_, ⟨before, ?_, kept ∘ whole⟩, ?_⟩
  · exact same ▸ stands
  · exact led.trans (congrArg some same.symm)
  · exact same ▸ fits.future

theorem recorded {kind : Path → Prop} {bs : List Batch} (renames : ∀ b ∈ bs, b.Renames kind) :
    ∀ b ∈ bs, b.isRecorded = true :=
  fun b member => (renames b member).isRecorded

/-- What runs of a batch that is executed joins the past, and nothing is ahead any more. -/
theorem Fits.execute (fits : s.Fits logs first) (calm : c.Calm logs)
    (renames : b.Renames first.FlatAt) (starts : s.Starts r) :
    (s.execute c b r).Fits logs first := by
  obtain ⟨files', stands, moved, parts⟩ :=
    Batch.execute_stands calm renames (starts.standsFor fits.stands)
  obtain ⟨before, led, kept⟩ := fits.past
  rw [Stage.execute, History.execute]
  generalize b.execute c.machine c.policy.onWorkspace r = out at *
  obtain ⟨ran, r'⟩ := out
  have at_end : r'.place.world.files = files' := stands.files
  subst at_end
  cases ran with
  | none =>
      have unmoved : s.place.world.files = r'.place.world.files := Option.some.inj moved
      exact fits.unmoved (unmoved ▸ stands) (by simp)
  | some ran =>
      rw [Option.toList_some, List.flatMap_singleton] at moved
      obtain ⟨later, led_later, whole⟩ := History.run_newest s.history.limit led kept moved
      simp only [History.settle_of_recorded ran (recorded fits.done) (recorded fits.undone)]
      refine ⟨fun b member => ?_, fun b member => (List.not_mem_nil member).elim, stands,
        ⟨later, led_later, whole⟩, ⟨_, rfl⟩⟩
      rcases List.mem_cons.1 (List.mem_of_mem_take member) with rfl | member
      · exact parts b (by simp)
      · exact fits.done b member

/-- A call changes the account at most by a cancellation, and unless it is cancelled it
takes the newest batch off a stack as a whole. -/
structure TakesNewest (before after : Report) (stack stack' : List Batch) : Prop where
  failed : after.failed = before.failed
  aborted : after.aborted = before.aborted
  whole : after.cancelled = true ∨ stack' = stack.tail

theorem TakesNewest.of_cutShort {b : Batch} {split : Split} {before after : Report}
    (cut : b.OnlyCutShort split before after) (rest : List Batch) :
    TakesNewest before after (b :: rest) (split.left.toList ++ rest) := by
  refine ⟨cut.failed, cut.aborted, cut.whole.imp_right fun whole => ?_⟩
  rw [whole.1]
  rfl

/-- Undoing takes moves from the past back to the front of what is ahead. -/
theorem Fits.undo (fits : s.Fits logs first) (calm : c.Calm logs) (starts : s.Starts r) :
    (s.undo c r).Fits logs first ∧
      TakesNewest r.report (s.history.undo c.machine c.policy.onWorkspace r).2.2.report
        s.history.done (s.undo c r).history.done := by
  have stands := starts.standsFor fits.stands
  obtain ⟨⟨done, undone, limit⟩, place, pruned⟩ := s
  cases done with
  | nil => exact ⟨fits.unmoved stands id, rfl, rfl, .inr rfl⟩
  | cons b rest =>
      obtain ⟨before, led, kept⟩ := fits.past
      obtain ⟨after, leads⟩ := fits.future
      have rest_renames : ∀ b ∈ rest, b.Renames first.FlatAt :=
        fun b member => fits.done b (List.mem_cons_of_mem _ member)
      -- The moves of the newest batch come last in the past.
      rw [History.movesDone, List.reverse_cons, List.flatMap_append,
        FileMap.run_append_eq_some] at led
      obtain ⟨between, led_rest, led_newest⟩ := led
      rw [List.flatMap_singleton] at led_newest
      obtain ⟨files', stands', left_led, ran_leads, parts, cut⟩ :=
        Batch.undo_stands calm (fits.done b List.mem_cons_self) stands led_newest
      have undo_eq := History.undo_of_recorded limit (recorded rest_renames)
        (recorded fits.undone) (recorded fun part member => parts part (List.mem_append_left _ member))
      rw [Stage.undo, undo_eq]
      generalize b.undo c.machine c.policy.onWorkspace r = out at *
      obtain ⟨⟨ran, left⟩, r'⟩ := out
      have at_end : r'.place.world.files = files' := stands'.files
      subst at_end
      refine ⟨⟨fun b member => ?_, fun b member => ?_, stands', ⟨before, ?_, kept⟩, ⟨after, ?_⟩⟩,
        .of_cutShort cut rest⟩
      · rcases List.mem_append.1 member with member | member
        · exact parts b (List.mem_append_left _ member)
        · exact rest_renames b member
      · rcases List.mem_append.1 member with member | member
        · exact parts b (List.mem_append_right _ member)
        · exact fits.undone b member
      · rw [History.movesDone, List.reverse_append, List.flatMap_append,
          FileMap.run_append_eq_some]
        refine ⟨between, led_rest, ?_⟩
        cases left <;> exact left_led
      · rw [History.movesAhead, List.flatMap_append, FileMap.run_append_eq_some]
        exact ⟨_, ran_leads, leads⟩

/-- Redoing takes moves from what is ahead to the end of the past. -/
theorem Fits.redo (fits : s.Fits logs first) (calm : c.Calm logs) (starts : s.Starts r) :
    (s.redo c r).Fits logs first ∧
      TakesNewest r.report (s.history.redo c.machine c.policy.onWorkspace r).2.2.report
        s.history.undone (s.redo c r).history.undone := by
  have stands := starts.standsFor fits.stands
  obtain ⟨⟨done, undone, limit⟩, place, pruned⟩ := s
  cases undone with
  | nil =>
      exact ⟨fits.unmoved stands fun whole => (Bool.or_eq_false_iff.1 whole).1, rfl, rfl, .inr rfl⟩
  | cons b rest =>
      obtain ⟨before, led, kept⟩ := fits.past
      obtain ⟨after, leads⟩ := fits.future
      have rest_renames : ∀ b ∈ rest, b.Renames first.FlatAt :=
        fun b member => fits.undone b (List.mem_cons_of_mem _ member)
      -- The moves of the newest batch come first in what is ahead.
      rw [History.movesAhead, List.flatMap_cons, FileMap.run_append_eq_some] at leads
      obtain ⟨between, newest_leads, rest_leads⟩ := leads
      obtain ⟨files', stands', ran_led, left_leads, parts, cut⟩ :=
        Batch.redo_stands calm (fits.undone b List.mem_cons_self) stands newest_leads
      have redo_eq := History.redo_of_recorded limit (recorded fits.done)
        (recorded rest_renames) (recorded fun part member => parts part (List.mem_append_left _ member))
      rw [Stage.redo, redo_eq]
      generalize b.redo c.machine c.policy.onWorkspace r = out at *
      obtain ⟨⟨ran, left⟩, r'⟩ := out
      have at_end : r'.place.world.files = files' := stands'.files
      subst at_end
      have ahead : ∀ part ∈ left.toList ++ rest, part.Renames first.FlatAt := by
        intro part member
        rcases List.mem_append.1 member with member | member
        · exact parts part (List.mem_append_left _ member)
        · exact rest_renames part member
      have future : FileMap.run first.place? ((left.toList ++ rest).flatMap Batch.moves)
          r'.place.world.files = some after := by
        rw [List.flatMap_append, FileMap.run_append_eq_some]
        exact ⟨between, left_leads, rest_leads⟩
      refine ⟨?_, .of_cutShort cut rest⟩
      cases ran with
      | none =>
          have unmoved : place.world.files = r'.place.world.files := Option.some.inj ran_led
          refine ⟨fits.done, ahead, stands', ⟨before, unmoved ▸ led, fun whole => kept ?_⟩,
            ⟨after, future⟩⟩
          exact (Bool.or_eq_false_iff.1 whole).1
      | some ran =>
          rw [Option.toList_some, List.flatMap_singleton] at ran_led
          obtain ⟨later, led_later, whole⟩ := History.run_newest limit led kept ran_led
          refine ⟨fun b member => ?_, ahead, stands', ⟨later, led_later, whole⟩, ⟨after, future⟩⟩
          rcases List.mem_cons.1 (List.mem_of_mem_take member) with rfl | member
          · exact parts b (by simp)
          · exact fits.done b member

/-- The stacks of a history that starts empty fit its world after any calls. -/
theorem Fits.of_steps {ws : Workspace} {limit : Nat} {s : Stage} (tree : ws.world.disk.IsTree)
    (steps : Relation.ReflTransGen (Step logs ws.world.FlatAt) ⟨{ limit }, ws, false⟩ s) :
    s.Fits logs ws.world := by
  induction steps with
  | refl => exact .start tree
  | tail _ step fits =>
      cases step with
      | execute calm renames starts => exact fits.execute calm renames starts
      | undo calm starts => exact (fits.undo calm starts).1
      | redo calm starts => exact (fits.redo calm starts).1

/-- When nobody stops them, as many undos as there are done batches undo all of them. -/
theorem Fits.undoTimes (fits : s.Fits logs first) (calm : c.Calm logs)
    (unheeded : c.heedsStop = false) (starts : s.Starts r) (uncancelled : r.report.cancelled = false) :
    ∃ files, World.StandsFor logs first
        (s.history.undoTimes c.machine c.policy.onWorkspace s.history.done.length r).2.place.world
        files ∧
      (s.pruned = false → files = first.files) ∧
      (s.history.undoTimes c.machine c.policy.onWorkspace s.history.done.length r).1.done = [] ∧
      (s.history.undoTimes c.machine c.policy.onWorkspace s.history.done.length r).2.report.failed =
        r.report.failed := by
  induction length : s.history.done.length generalizing s r with
  | zero =>
      have empty : s.history.done = [] := List.length_eq_zero_iff.1 length
      obtain ⟨before, led, kept⟩ := fits.past
      rw [History.movesDone, empty] at led
      refine ⟨_, starts.standsFor fits.stands, fun whole => ?_, empty, rfl⟩
      rw [← kept whole]
      exact (Option.some.inj led).symm
  | succ n ih =>
      obtain ⟨fits', takes⟩ := fits.undo calm starts
      have still : (s.history.undo c.machine c.policy.onWorkspace r).2.2.report.cancelled = false := by
        rw [History.undo_state, ← uncancelled]
        split
        · rfl
        · next b rest newest =>
          exact Batch.undo_not_cancelled calm (fits.done b (by simp [newest]))
            (starts.standsFor fits.stands) unheeded
      have shorter : (s.undo c r).history.done = s.history.done.tail :=
        takes.whole.resolve_left (by simp [still])
      have starts' : (s.undo c r).Starts (s.history.undo c.machine c.policy.onWorkspace r).2.2 :=
        ⟨rfl, rfl⟩
      obtain ⟨files, stands, whole, empty, failed⟩ :=
        ih fits' starts' still (by rw [shorter, List.length_tail, length]; rfl)
      exact ⟨files, stands, whole, empty, failed.trans takes.failed⟩

/-- What a history of renames means for the files. The first world is the one that the
history started in. -/
structure Linear (logs : Set Nat) (first : World) (s : Stage) : Prop where
  /-- All done batches, oldest first, lead from some world to the present one. -/
  past : ∃ base w, (World.renameAll s.history.movesDone).run.run base = (.ok (), w) ∧
    World.SameFiles logs w s.place.world ∧ (s.pruned = false → World.SameFiles logs first base)
  /-- All done batches can be taken back, newest first. -/
  back : ∃ w, (World.renameAll s.history.movesBack).run.run s.place.world = (.ok (), w) ∧
    (s.pruned = false → World.SameFiles logs first w)
  /-- All undone batches can be redone. -/
  ahead : ∃ w, (World.renameAll s.history.movesAhead).run.run s.place.world = (.ok (), w)
  undo : ∀ {σ : Type} (c : Conduct σ) (r : Run.State σ Workspace), c.Calm logs → s.Starts r →
    TakesNewest r.report (s.history.undo c.machine c.policy.onWorkspace r).2.2.report
      s.history.done (s.undo c r).history.done
  redo : ∀ {σ : Type} (c : Conduct σ) (r : Run.State σ Workspace), c.Calm logs → s.Starts r →
    TakesNewest r.report (s.history.redo c.machine c.policy.onWorkspace r).2.2.report
      s.history.undone (s.redo c r).history.undone
  /-- Undoing everything leads back to the first files. -/
  undoAll : s.pruned = false → ∀ {σ : Type} (c : Conduct σ) (r : Run.State σ Workspace),
    c.Calm logs → c.heedsStop = false → s.Starts r → r.report.cancelled = false →
    let (h, r') := s.history.undoTimes c.machine c.policy.onWorkspace s.history.done.length r
    h.done = [] ∧ r'.report.failed = r.report.failed ∧
      World.SameFiles logs first r'.place.world

/-- The paths of done batches are flat. -/
theorem Fits.flatAt_of_mem_done (fits : s.Fits logs first) {m : Path × Path}
    (member : m ∈ s.history.movesDone) : first.FlatAt m.1 ∧ first.FlatAt m.2 := by
  obtain ⟨b, in_done, in_moves⟩ := List.mem_flatMap.1 member
  exact (fits.done b (List.mem_reverse.1 in_done)).of_mem_moves in_moves

theorem Fits.linear (fits : s.Fits logs first) (tree : first.disk.IsTree) :
    s.Linear logs first := by
  have start : World.StandsFor logs first first first.files := ⟨tree, rfl, .refl first⟩
  obtain ⟨before, led, kept⟩ := fits.past
  have backward : FileMap.run first.place? s.history.movesBack s.place.world.files =
      some before := by
    rw [History.movesBack_eq]
    exact FileMap.run_back led
  have flat_back : ∀ m ∈ s.history.movesBack, first.FlatAt m.2 := by
    intro m member
    rw [History.movesBack_eq] at member
    obtain ⟨n, in_reverse, rfl⟩ := List.mem_map.1 member
    exact (fits.flatAt_of_mem_done (List.mem_reverse.1 in_reverse)).1
  obtain ⟨base, taken_back, base_stands⟩ := fits.stands.renameAll flat_back backward
  have base_first : s.pruned = false → World.SameFiles logs first base :=
    fun whole => start.sameFiles (kept whole ▸ base_stands)
  refine ⟨?_, ⟨base, taken_back, base_first⟩, ?_, fun c r calm starts => (fits.undo calm starts).2,
    fun c r calm starts => (fits.redo calm starts).2, fun whole σ c r calm unheeded starts fresh => ?_⟩
  · obtain ⟨w, done, stands⟩ :=
      base_stands.renameAll (fun m member => (fits.flatAt_of_mem_done member).2) led
    exact ⟨base, w, done, stands.sameFiles fits.stands, base_first⟩
  · obtain ⟨after, leads⟩ := fits.future
    have flat_ahead : ∀ m ∈ s.history.movesAhead, first.FlatAt m.2 := by
      intro m member
      obtain ⟨b, in_undone, in_moves⟩ := List.mem_flatMap.1 member
      exact ((fits.undone b in_undone).of_mem_moves in_moves).2
    obtain ⟨w, done, -⟩ := fits.stands.renameAll flat_ahead leads
    exact ⟨w, done⟩
  · obtain ⟨files, stands, all, empty, failed⟩ := fits.undoTimes calm unheeded starts fresh
    exact ⟨empty, failed, start.sameFiles (all whole ▸ stands)⟩

/-- A history of renames that starts empty is linear after any calls, each under any calm
conduct and cut short anywhere. -/
theorem linear_of_steps {ws : Workspace} {limit : Nat} {s : Stage} (tree : ws.world.disk.IsTree)
    (steps : Relation.ReflTransGen (Step logs ws.world.FlatAt) ⟨{ limit }, ws, false⟩ s) :
    s.Linear logs ws.world :=
  (Fits.of_steps tree steps).linear tree

/-- Two files that move on in a row. -/
def rowBatch : Batch where
  kind := .rename
  commands :=
    [.rename (.ofString "b") (.ofString "c"), .rename (.ofString "a") (.ofString "b")]

/-- The batch was executed, and undoing it was cut short after one command. -/
def halfUndone : Stage :=
  let ws : Workspace := ⟨World.sample [("a", "first"), ("b", "second")], none⟩
  let s := execute ⟨{ limit := 1 }, ws, false⟩ .haltable rowBatch ⟨(), ws, {}⟩
  s.undo .haltable ⟨(), { s.place with world := { s.place.world with interrupt := some 1 } }, {}⟩

theorem halfUndone_linear :
    let ws : Workspace := ⟨World.sample [("a", "first"), ("b", "second")], none⟩
    ws.world.disk.IsTree ∧
      Relation.ReflTransGen (Step ∅ ws.world.FlatAt) ⟨{ limit := 1 }, ws, false⟩ halfUndone ∧
      halfUndone.history.done = [{ rowBatch with commands := rowBatch.commands.take 1 }] ∧
      halfUndone.history.undone = [{ rowBatch with commands := rowBatch.commands.drop 1 }] ∧
      halfUndone.Linear ∅ ws.world := by
  intro ws
  have tree : ws.world.disk.IsTree := by decide +kernel
  have flat : ws.world.Flat [.ofString "a", .ofString "b", .ofString "c"] := by decide +kernel
  have flatAt : ∀ p ∈ [Path.ofString "a", .ofString "b", .ofString "c"], ws.world.FlatAt p :=
    fun p member => flat.flatAt member
  have renames : rowBatch.Renames ws.world.FlatAt := by
    refine ⟨rfl, fun c member => ?_⟩
    rcases List.mem_pair.1 member with rfl | rfl
    · exact ⟨flatAt _ (by simp), flatAt _ (by simp)⟩
    · exact ⟨flatAt _ (by simp), flatAt _ (by simp)⟩
  have steps : Relation.ReflTransGen (Step ∅ ws.world.FlatAt) ⟨{ limit := 1 }, ws, false⟩
      halfUndone :=
    .tail (.single (.execute (Conduct.haltable_calm ∅) renames ⟨rfl, rfl⟩)) (.undo (Conduct.haltable_calm ∅) ⟨rfl, rfl⟩)
  exact ⟨tree, steps, by decide +kernel, by decide +kernel, linear_of_steps tree steps⟩

end Stage

end Renumber
