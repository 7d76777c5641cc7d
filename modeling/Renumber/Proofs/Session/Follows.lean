import Renumber.Proofs.History.Stored
import Renumber.Proofs.Run.Carried
import Renumber.Proofs.Session.Operations
import Renumber.Proofs.World.Sample

/-!
# Sessions follow their files

Whatever is done in a session, and wherever that is cut short, the sources of its working
set are the present paths of the files that it began with. Only batches of renames move
files, and the working set follows what ran of them; all other batches leave files where
they are. This needs the file system to be level at the paths that are renamed, and others
to leave these alone.
-/

namespace Renumber

open WorkingSet (follow)

theorem WorkingSet.map_follow_nil (sources : List Path) : sources.map (follow []) = sources :=
  List.map_id _

namespace Session

open History (Call)

variable {σ : Type} {paths : Path → Prop} {ids : List Nat} {session session' : Session}
  {w w' : World} {moves : List (Path × Path)}

/-! ## What is kept -/

/-- The sources of a session are where some files stand, and batches rename between paths
at which the file system is level. -/
structure Tracks (paths : Path → Prop) (ids : List Nat) (session : Session) (w : World) : Prop where
  level : w.Level paths
  sources : List.Forall₂ (fun p id => paths p ∧ w.fileOf? p = some id) session.items.sources ids
  batches : ∀ b ∈ session.history.batches, b.Uniform paths

/-- The sources follow the files along moves that were made. -/
theorem Tracks.carried (tracks : Tracks paths ids session w) (carries : World.Carries moves w w')
    (between : ∀ m ∈ moves, paths m.1 ∧ paths m.2)
    (sources : session'.items.sources = session.items.sources.map (follow moves))
    (batches : ∀ b ∈ session'.history.batches, b.Uniform paths) : Tracks paths ids session' w' where
  level := tracks.level.carries carries
  sources := by
    rw [sources, List.forall₂_map_left_iff]
    refine tracks.sources.imp fun p id there => ?_
    exact carries.fileOf?_follow tracks.level between there.1 there.2
  batches := batches

theorem Tracks.still (tracks : Tracks paths ids session w) (still : World.Still w w')
    (sources : session'.items.sources = session.items.sources)
    (history : session'.history = session.history) : Tracks paths ids session' w' := by
  refine tracks.carried (still.carries tracks.level.tree) (List.forall_mem_nil _) ?_ ?_
  · rw [sources, WorkingSet.map_follow_nil]
  · rw [history]
    exact tracks.batches

variable {s : Sitting σ} {c : Conduct σ} {logs : Set Nat} {b : Batch}

/-- A call of the history moves files as what it gives back says. -/
theorem Tracks.call (tracks : Tracks paths ids s.session s.world) (calm : c.Calm logs) (call : Call)
    (new : ∀ b, call = .execute b → b.Uniform paths) (items : Option WorkingSet) (session' : Session)
    (sources : session'.items.sources = s.session.items.sources.map (follow
      ((s.session.history.ran? c.machine c.policy.onWorkspace (stateOf s items) call).toList.flatMap
        call.moves)))
    (history : session'.history =
      (s.session.history.call c.machine c.policy.onWorkspace (stateOf s items) call).1) :
    Tracks paths ids session'
      (s.session.history.call c.machine c.policy.onWorkspace (stateOf s items) call).2.place.world := by
  have step := s.session.history.step_call c.machine c.policy.onWorkspace (stateOf s items) call
  have uniform := History.running_uniform call new tracks.batches
  have carries := calm.run_carries (r := stateOf s items) (s.session.history.running call).1
    tracks.level uniform
  rw [← History.ran?_moves, ← History.call_place] at carries
  refine tracks.carried carries ?_ sources ?_
  · intro m member
    obtain ⟨ran, some_ran, moved⟩ := List.mem_flatMap.1 member
    have own := step.forall_ran (fun part whole => whole.partOf part) new tracks.batches ran
      (Option.mem_toList.1 some_ran)
    exact call.between own m moved
  · rw [history]
    exact step.forall (fun part whole => whole.partOf part)
      (fun same part => (new _ same).partOf part) tracks.batches

/-! ## Operations -/

/-- A batch that moves no files is run. -/
theorem Tracks.run_still (tracks : Tracks paths ids s.session s.world) (calm : c.Calm logs)
    (withItems : Bool) (kind : b.kind ≠ .rename)
    (moveless : ∀ command ∈ b.commands, Batch.moveOf? command = none) :
    Tracks paths ids ((execute c withItems b).run s).2.session
      ((execute c withItems b).run s).2.world := by
  refine tracks.call calm (.execute b) ?_ (if withItems then some s.session.items else none)
    ((execute c withItems b).run s).2.session ?_ rfl
  · rintro _ ⟨⟩
    exact .inr ⟨kind, moveless⟩
  · rw [(execute_kept c withItems b s).sources]
    cases ran : s.session.history.ran? c.machine c.policy.onWorkspace
        (stateOf s (if withItems then some s.session.items else none)) (.execute b) with
    | none => exact (WorkingSet.map_follow_nil _).symm
    | some part =>
        have fewer := (b.execute_part c.machine c.policy.onWorkspace _ ran).commands.subset
        have none_moved := Call.moves_of_moveless (.execute b)
          fun command member => moveless command (fewer member)
        rw [Option.toList_some, List.flatMap_singleton, none_moved, WorkingSet.map_follow_nil]

/-- A batch of renames is run, and the sources follow what ran of it. -/
theorem Tracks.moved (tracks : Tracks paths ids s.session s.world) (calm : c.Calm logs)
    (renames : b.Renames paths) :
    Tracks paths ids (moved c b s).session (moved c b s).world := by
  have new : ∀ b', Call.execute b = .execute b' → b'.Uniform paths := by
    rintro _ ⟨⟩
    exact .inl renames
  obtain ⟨executed, newest⟩ :=
    s.session.history.execute_ran? c.machine c.policy.onWorkspace b (stateOf s none)
  have kept := execute_kept c false b s
  have ran : ((execute c false b).run s).1 = (s.session.history.ran? c.machine c.policy.onWorkspace
    (stateOf s none) (.execute b)).isSome := executed
  rw [Session.moved, ran]
  split
  · next some_ran =>
    have top : ((execute c false b).run s).2.session.history.toUndo? =
      s.session.history.ran? c.machine c.policy.onWorkspace (stateOf s none) (.execute b) := newest some_ran
    rw [top]
    refine tracks.call calm (.execute b) new none _ ?_ rfl
    dsimp only [Sitting.followMoves, Sitting.withItems, WorkingSet.followMoves, WorkingSet.ofSources]
    rw [kept.sources]
    obtain ⟨part, same⟩ := Option.isSome_iff_exists.1 some_ran
    rw [same, Option.toList_some, List.flatMap_singleton]
    rfl
  · next none_ran =>
    refine tracks.call calm (.execute b) new none _ ?_ rfl
    rw [Option.not_isSome_iff_eq_none.1 none_ran]
    exact kept.sources.trans (WorkingSet.map_follow_nil _).symm

/-- The sources follow a batch that was undone or redone, whether it moved files or not. -/
theorem settle_sources (call : Call) (uniform : b.Uniform paths) (s : Sitting σ) :
    (settle b (call.moves b) s).session.items.sources =
      s.session.items.sources.map (follow (call.moves b)) := by
  obtain renames | ⟨kind, moveless⟩ := uniform
  · rw [settle, renames.kind]
    rfl
  · rw [call.moves_of_moveless moveless, WorkingSet.map_follow_nil, settle]
    split
    · next renames => exact absurd renames kind
    · rfl
    · rfl

/-- A batch is undone or redone, and the sources follow what ran of it. -/
theorem Tracks.turned (tracks : Tracks paths ids s.session s.world) (calm : c.Calm logs) (call : Call)
    (new : ∀ b, call = .execute b → b.Uniform paths) :
    let r := stateOf s (some s.session.items)
    let out := (s.session.history.ran? c.machine c.policy.onWorkspace r call,
      s.session.history.call c.machine c.policy.onWorkspace r call)
    Tracks paths ids (turned call.moves out s).session (turned call.moves out s).world := by
  intro r out
  have kept := ended_kept c call s true
  have step := s.session.history.step_call c.machine c.policy.onWorkspace r call
  have each := step.forall_ran (fun part whole => whole.partOf part) new tracks.batches
  rw [Session.turned]
  cases ran : out.1 with
  | none =>
      refine tracks.call calm call new (some s.session.items) _ ?_ rfl
      have nothing : s.session.history.ran? c.machine c.policy.onWorkspace
        (stateOf s (some s.session.items)) call = none := ran
      rw [nothing]
      exact kept.sources.trans (WorkingSet.map_follow_nil _).symm
  | some part =>
      have same : s.session.history.ran? c.machine c.policy.onWorkspace
        (stateOf s (some s.session.items)) call = some part := ran
      dsimp only
      rw [settle_world]
      refine tracks.call calm call new (some s.session.items) _ ?_ (settle_history ..)
      rw [settle_sources call (each part same), same, Option.toList_some, List.flatMap_singleton]
      exact congrArg (List.map _) kept.sources

/-- Everything that committing renames would do is between the paths. -/
def Operation.Within (o : Operation) (paths : Path → Prop) (s : Sitting σ) : Prop :=
  match o with
  | .commitRenames => ∀ plan, Plan.strict s.world.present s.session.caseInsensitive
      s.session.items.renameItems.pairs = .ok plan →
        ∀ step ∈ plan.steps, paths step.source ∧ paths step.target
  | _ => True

instance (listed : List Path) (s : Sitting σ) (o : Operation) :
    Decidable (o.Within (· ∈ listed) s) :=
  match o with
  | .commitRenames =>
    decidable_of_iff (∀ plan ∈ (Plan.strict s.world.present s.session.caseInsensitive
      s.session.items.renameItems.pairs).toOption, ∀ step ∈ plan.steps,
        step.source ∈ listed ∧ step.target ∈ listed) <| by
      refine forall_congr' fun plan => imp_congr_left ?_
      cases Plan.strict s.world.present s.session.caseInsensitive s.session.items.renameItems.pairs with
      | error failure => simp [Except.toOption]
      | ok planned => simp [Except.toOption]
  | .edit _ | .commitTouch | .undo | .redo => isTrue trivial

/-- An edit moves no files. -/
theorem Tracks.edited (tracks : Tracks paths ids s.session s.world) (calm : c.Calm logs)
    (edit : b.isRecorded = false) (moveless : b.moves = []) :
    Tracks paths ids (executed c b s).session (executed c b s).world := by
  refine tracks.run_still calm true ?_ (List.filterMap_eq_nil_iff.1 moveless)
  intro kind
  rw [Batch.isRecorded, kind] at edit
  cases edit

theorem Tracks.edit (tracks : Tracks paths ids s.session s.world) (calm : c.Calm logs) (e : Edit) :
    Tracks paths ids (e.run c s).session (e.run c s).world := by
  let begun := s.withItems s.session.items.withRename
  have built : Tracks paths ids begun.session begun.world := tracks.still (.refl _) rfl rfl
  cases e with
  | generate g =>
      rw [run_generate]
      split
      · exact tracks
      · dsimp only
        split
        · exact built
        · exact built.edited calm rfl rfl
  | setDestination source target =>
      rw [run_setDestination]
      exact built.edited calm rfl rfl
  | restate edit =>
      have reading := s.session.items.touchItems_still s.world
      rw [run_restate]
      generalize s.session.items.touchItems.run.run s.world = out at reading ⊢
      obtain ⟨_ | items, w⟩ := out
      · exact tracks.still reading rfl rfl
      · let known := { s with world := w }.withItems { s.session.items with touch := some items }
        have read : Tracks paths ids known.session known.world := tracks.still reading rfl rfl
        dsimp only
        split
        · exact read
        · exact read.edited calm rfl rfl
  | reset =>
      rw [run_reset]
      dsimp only
      split
      · exact tracks
      · exact tracks.edited calm rfl rfl

theorem readClock_still (s : Sitting σ) : World.Still s.world s.readClock.2.world :=
  .of_disk_eq rfl rfl

theorem Tracks.commitRenames (tracks : Tracks paths ids s.session s.world) (calm : c.Calm logs)
    (within : Operation.commitRenames.Within paths s) :
    Tracks paths ids (Operation.commitRenames.run c s).session
      (Operation.commitRenames.run c s).world := by
  have built : Tracks paths ids (s.withItems s.session.items.withRename).session s.world :=
    tracks.still (.refl _) rfl rfl
  rw [Operation.run, run_commitRenames]
  split
  · exact built
  · next plan planned =>
    dsimp only
    split
    · exact built
    · let begun := (s.withItems s.session.items.withRename).readClock
      have read : Tracks paths ids begun.2.session begun.2.world :=
        built.still (readClock_still _) rfl rfl
      refine read.moved calm ⟨rfl, ?_⟩
      rw [renameBatch, List.forall_mem_map]
      exact within plan planned

theorem Tracks.commitTouch (tracks : Tracks paths ids s.session s.world) (calm : c.Calm logs) :
    Tracks paths ids (Operation.commitTouch.run c s).session
      (Operation.commitTouch.run c s).world := by
  have read : Tracks paths ids s.readClock.2.session s.readClock.2.world :=
    tracks.still (readClock_still s) rfl rfl
  have reading := s.readClock.2.session.items.touchItems_still s.readClock.2.world
  rw [Operation.run, run_commitTouch]
  dsimp only
  generalize s.readClock.2.session.items.touchItems.run.run s.readClock.2.world = out at reading ⊢
  obtain ⟨_ | items, w⟩ := out
  · exact read.still reading rfl rfl
  · let begun := { s.readClock.2 with world := w }.withItems
      { s.readClock.2.session.items with touch := some items }
    have built : Tracks paths ids begun.session begun.world := read.still reading rfl rfl
    dsimp only
    split
    · exact built
    · have moveless : ∀ command ∈ (touchBatch items s.readClock.1).commands,
          Batch.moveOf? command = none := List.forall_mem_map.2 fun _ _ => rfl
      have other : (touchBatch items s.readClock.1).kind ≠ .rename := by
        rintro ⟨⟩
      exact (built.run_still calm false other moveless).still (.refl _) rfl rfl

/-- Every operation keeps the sources where their files are. -/
theorem Tracks.run (tracks : Tracks paths ids s.session s.world) (calm : c.Calm logs)
    (o : Operation) (within : o.Within paths s) :
    Tracks paths ids (o.run c s).session (o.run c s).world := by
  cases o with
  | edit e => exact tracks.edit calm e
  | commitRenames => exact tracks.commitRenames calm within
  | commitTouch => exact tracks.commitTouch calm
  | undo =>
      rw [Operation.run, run_undo_eq]
      refine tracks.turned calm .undo ?_
      rintro _ ⟨⟩
  | redo =>
      rw [Operation.run, run_redo_eq]
      refine tracks.turned calm .redo ?_
      rintro _ ⟨⟩

/-! ## The work in a session -/

/-- Work in a session, one operation after the other, each with a policy that keeps its hands
off the disk. Between operations others may do anything that leaves the paths alone. -/
inductive Worked (paths : Path → Prop) (first : Session × World) : Session → World → Prop
  | start : Worked paths first first.1 first.2
  | meanwhile {session : Session} {w w' : World} (before : Worked paths first session w)
      (level : w'.Level paths) (same : ∀ p, paths p → w'.fileOf? p = w.fileOf? p) :
      Worked paths first session w'
  | operation {σ : Type} {s : Sitting σ} {c : Conduct σ} {logs : Set Nat}
      (before : Worked paths first s.session s.world) (calm : c.Calm logs) (o : Operation)
      (within : o.Within paths s) : Worked paths first (o.run c s).session (o.run c s).world

theorem Worked.tracks {first : Session × World} (worked : Worked paths first session w)
    (tracks : Tracks paths ids first.1 first.2) : Tracks paths ids session w := by
  induction worked with
  | start => exact tracks
  | meanwhile before level same ih =>
      refine ⟨level, ih.sources.imp fun p id there => ?_, ih.batches⟩
      exact ⟨there.1, (same p there.1).trans there.2⟩
  | operation before calm o within ih => exact ih.run calm o within

/-- A batch that was loaded is uniform if its renames are between the paths. -/
theorem uniform_of_loaded (loaded : UndoLog.Loaded b) (between : ∀ m ∈ b.moves, paths m.1 ∧ paths m.2) :
    b.Uniform paths := by
  by_cases kind : b.kind = .rename
  · refine .inl ⟨kind, fun command member => ?_⟩
    have own := (loaded.kinds command member).trans kind
    cases command with
    | rename source target =>
        exact between (source, target) (List.mem_filterMap.2 ⟨_, member, rfl⟩)
    | _ => cases own
  · refine .inr ⟨kind, fun command member => ?_⟩
    have own := loaded.kinds command member
    cases command with
    | rename => exact absurd own.symm kind
    | _ => rfl

theorem tracks_start {sources : List Path} (log : Path) (limit : Nat) (level : w.Level paths)
    (located : List.Forall₂ (fun p id => paths p ∧ w.fileOf? p = some id) sources ids)
    (between : ∀ b ∈ ((start sources log limit).run w).1.history.batches,
      ∀ m ∈ b.moves, paths m.1 ∧ paths m.2) :
    Tracks paths ids ((start sources log limit).run w).1 ((start sources log limit).run w).2 := by
  obtain ⟨notices, told⟩ := History.load_world log limit w
  obtain ⟨done, undone⟩ := History.load_loaded log limit w
  have world : ((start sources log limit).run w).2 = { w with notices } := told
  rw [world]
  refine ⟨⟨level.tree, level.flat, level.apart⟩, located, fun b member => ?_⟩
  have loaded : UndoLog.Loaded b := (List.mem_append.1 member).elim (done b) (undone b)
  exact uniform_of_loaded loaded (between b member)

/-- The working set follows its files. Whatever was done since a session began, and however
each operation ended, every source is the present path of the very file that it was the path
of at the beginning. -/
theorem Worked.follows {sources : List Path} {log : Path} {limit : Nat} {w₀ : World}
    (level : w₀.Level paths) (there : ∀ p ∈ sources, paths p ∧ (w₀.fileOf? p).isSome = true)
    (between : ∀ b ∈ ((Session.start sources log limit).run w₀).1.history.batches,
      ∀ m ∈ b.moves, paths m.1 ∧ paths m.2)
    (worked : Worked paths ((Session.start sources log limit).run w₀) session w) :
    session.items.sources.map w.fileOf? = sources.map w₀.fileOf? := by
  have located : List.Forall₂ (fun p id => paths p ∧ w₀.fileOf? p = some id) sources
      (sources.map fun p => (w₀.fileOf? p).getD 0) := by
    rw [List.forall₂_map_right_iff, List.forall₂_same]
    intro p member
    obtain ⟨listed, stands⟩ := there p member
    obtain ⟨id, stands⟩ := Option.isSome_iff_exists.1 stands
    rw [stands]
    exact ⟨listed, rfl⟩
  have known : sources.map w₀.fileOf? = (sources.map fun p => (w₀.fileOf? p).getD 0).map some := by
    rw [List.map_map]
    apply List.map_congr_left
    intro p member
    obtain ⟨id, stands⟩ := Option.isSome_iff_exists.1 (there p member).2
    rw [Function.comp_apply, stands, Option.getD_some]
  have tracks := worked.tracks (tracks_start log limit level located between)
  rw [known, ← List.forall₂_eq_eq_eq, List.forall₂_map_left_iff, List.forall₂_map_right_iff]
  exact tracks.sources.imp fun p id there => there.2

/-- Two files are to swap their names, and the user stops that before its last step. The sources
are where the files were left, and are back after an undo. -/
theorem follows_halfSwapped :
    let w₀ := World.sample [("a", "first"), ("b", "second")]
    let sources : List Path := [.ofString "/w/a", .ofString "/w/b"]
    let first := (start sources (.ofString "/w/undo") 4).run w₀
    let s₀ : Sitting Unit := ⟨first.1, first.2, (), {}⟩
    let s₁ := Operation.run (.edit (.setDestination (.ofString "/w/a") (.ofString "/w/b"))) .plain s₀
    let s₂ := Operation.run (.edit (.setDestination (.ofString "/w/b") (.ofString "/w/a"))) .plain s₁
    let s₃ := Operation.commitRenames.run .haltable
      { s₂ with world := { s₂.world with interrupt := some 2 } }
    let s₄ := Operation.undo.run .plain s₃
    s₃.session.items.sources = [.ofString "/w/b[1]", .ofString "/w/a"] ∧
      s₃.session.items.sources.map s₃.world.fileOf? = sources.map w₀.fileOf? ∧
      s₄.session.items.sources = sources ∧
      s₄.session.items.sources.map s₄.world.fileOf? = sources.map w₀.fileOf? := by
  intro w₀ sources first s₀ s₁ s₂ s₃ s₄
  let listed : List Path := [.ofString "/w/a", .ofString "/w/b", .ofString "/w/b[1]"]
  have calm : (Conduct.plain : Conduct Unit).Calm ∅ :=
    ⟨fun _ _ _ _ => rfl, fun _ _ _ _ => rfl, fun _ same => nomatch same⟩
  have level : w₀.Level (· ∈ listed) := World.Flat.level (by decide +kernel)
  have there : ∀ p ∈ sources, p ∈ listed ∧ (w₀.fileOf? p).isSome = true := by decide +kernel
  have between : ∀ b ∈ first.1.history.batches, ∀ m ∈ b.moves, m.1 ∈ listed ∧ m.2 ∈ listed := by
    decide +kernel
  have one : Worked (· ∈ listed) first s₁.session s₁.world := .operation (s := s₀) .start calm _ trivial
  have two : Worked (· ∈ listed) first s₂.session s₂.world := .operation (s := s₁) one calm _ trivial
  have halted : Worked (· ∈ listed) first s₂.session { s₂.world with interrupt := some 2 } :=
    .meanwhile two (World.Flat.level (by decide +kernel)) fun _ _ => rfl
  have half : Worked (· ∈ listed) first s₃.session s₃.world :=
    .operation (s := { s₂ with world := { s₂.world with interrupt := some 2 } }) halted
      (Conduct.haltable_calm ∅) .commitRenames (by decide +kernel)
  have undone : Worked (· ∈ listed) first s₄.session s₄.world :=
    .operation (s := s₃) half calm .undo trivial
  refine ⟨by decide +kernel, ?_, by decide +kernel, ?_⟩
  · exact half.follows level there between
  · exact undone.follows level there between

end Session

end Renumber
