import Renumber.Proofs.History.Touches
import Renumber.Proofs.Session.Edits
import Renumber.Proofs.World.Sample

/-!
# Undoing what was written to files

Committing the wanted file states and undoing that brings all files back to the mode and the
times that they had, if their states are still the ones that were read. It does not matter
which of the states could be written, how the policy took failures, whether the commit was
cancelled, or how many of the paths lead to one file. What a path shows to which nothing can be
written never changes. Only a log that is open during all this has been modified since.
-/

namespace Renumber

open Outcome

/-! ## States that are still as they were read -/

variable {w w' : World} {sources : List Path} {items : TouchItems} {set : WorkingSet}

/-- Every state that was read is the one that its path shows, and another state is wanted for
the same path only. -/
def TouchItems.Fresh (items : TouchItems) (w : World) : Prop :=
  ∀ e ∈ items.entries, w.Shows e.2.former ∧ e.2.wanted.path = e.2.former.path

/-- The states that were read, if any were, are still what the paths show. -/
def WorkingSet.Fresh (set : WorkingSet) (w : World) : Prop :=
  ∀ items, set.touch = some items → items.Fresh w

theorem TouchItems.read_fresh (read : (TouchItems.read sources).run.run w = (.ok items, w')) :
    w' = w ∧ items.Fresh w := by
  obtain ⟨states, w₁, all, made⟩ := bind_eq_ok read
  cases made
  have reads : ∀ source w, ((ExceptT.adapt (Failure.unreadable source)
      (FileState.read source)).run.run w).2 = w := by
    intro source w
    rw [run_adapt, FileState.run_read]
  obtain ⟨rfl, each⟩ := mapM_reads reads all
  refine ⟨rfl, fun e member => ?_⟩
  obtain ⟨state, among, rfl⟩ := TouchItems.of_mem_ofStates member
  obtain ⟨source, -, one⟩ := each state among
  have one := adapt_eq_ok one
  rw [FileState.run_read] at one
  refine ⟨?_, rfl⟩
  cases shown : w'.disk.readStats w'.cwd source with
  | error fault =>
      rw [shown] at one
      cases one
  | ok stats =>
      rw [shown] at one
      cases one
      exact ⟨stats, shown, rfl⟩

theorem WorkingSet.Fresh.touchItems (fresh : set.Fresh w)
    (read : set.touchItems.run.run w = (.ok items, w')) : w' = w ∧ items.Fresh w := by
  rw [WorkingSet.touchItems] at read
  split at read
  · next built =>
    cases read
    exact ⟨rfl, fresh items built⟩
  · exact TouchItems.read_fresh read

theorem World.Shows.of_disk_eq {state : FileState} (shows_state : w.Shows state)
    (disk : w'.disk = w.disk) (cwd : w'.cwd = w.cwd) : w'.Shows state := by
  rw [World.Shows, disk, cwd]
  exact shows_state

/-- Wanting other states for the same paths does not make states stale. -/
theorem TouchItems.Fresh.amend {changes : List (Change FileState)} (fresh : items.Fresh w)
    (keeps : ∀ e ∈ items.entries, ∀ c, PathMap.changeOf? changes e.1 = some c →
      c.after.path = e.2.former.path) :
    TouchItems.Fresh (items.amend .state changes) w := by
  intro e member
  obtain ⟨own, among, rfl⟩ := List.mem_map.1 member
  dsimp only
  split
  · next c change => exact ⟨(fresh own among).1, keeps own among c change⟩
  · exact fresh own among

/-- The changes that an edit makes are for the same paths, if it keeps all paths. -/
theorem TouchItems.Fresh.keeps_restatements {edit : Path → FileState → FileState}
    (fresh : items.Fresh w) (keyed : items.Keyed)
    (keeps : ∀ source state, (edit source state).path = state.path) :
    ∀ e ∈ items.entries, ∀ c,
      PathMap.changeOf? (Session.restatements items edit) e.1 = some c →
        c.after.path = e.2.former.path := by
  intro e member c change
  obtain ⟨own, among, made⟩ := List.mem_filterMap.1 (PathMap.mem_of_changeOf? change)
  have made : Session.restatement? edit own = some c := made
  obtain ⟨source, before⟩ := Session.restatement?_eq_some made
  have same : own = e := by
    have found := items.findItem?_of_mem among
    have same := PathMap.same_of_changeOf? change
    rw [source, keyed own among] at same
    rw [← items.findItem?_congr same, items.findItem?_of_mem member] at found
    exact (Option.some.inj found).symm
  subst same
  rw [Session.restatement?] at made
  split at made
  · cases made
  · cases made
    exact (keeps _ _).trans (fresh own among).2

/-- What is committed are writes over states that show. -/
theorem TouchItems.Fresh.touchBatch (fresh : items.Fresh w) (now : Time.Instant) :
    ∀ command ∈ (Session.touchBatch items now).commands, command.TouchesFrom w := by
  rw [Session.touchBatch, List.forall_mem_map]
  intro item member
  obtain ⟨e, among, rfl⟩ := List.mem_map.1 (List.mem_filter.1 member).1
  exact fresh e among

namespace Session

variable {σ τ : Type} {c : Conduct σ} {c₁ : Conduct σ} {c₂ : Conduct τ} {s s₁ : Sitting σ}
  {t : Sitting τ} {logs : Set Nat}

/-! ## Edits of states -/

/-- The disk and the working folder are as they were. -/
def SameDisk (ws ws' : Workspace) : Prop :=
  ws'.world.disk = ws.world.disk ∧ ws'.world.cwd = ws.world.cwd

/-- A run of edits that writes to no log does nothing to the disk. -/
theorem run_sameDisk (calm : c.Calm ∅) {commands : List Command}
    (edits : ∀ command ∈ commands, command.isRecorded = false) (r : Run.State σ Workspace) :
    SameDisk r.place (Run.commands c.machine c.policy.onWorkspace false commands r).2.place := by
  have execute : ∀ (command : Command) (ws : Workspace), command.isRecorded = false →
      SameDisk ws (c.machine.execute command ws).2 := by
    intro command ws edit
    have same := Command.execute_world edit ws
    exact ⟨congrArg World.disk same, congrArg World.cwd same⟩
  apply Run.steps_related (fun _ => ⟨rfl, rfl⟩) ?_ execute ?_ ?_ ?_ edits
    { r with report := { r.report with total := r.report.total + commands.length } }
  · exact fun u v w first second => ⟨second.1.trans first.1, second.2.trans first.2⟩
  · intro text ws
    have logless : c.log = none := Option.eq_none_iff_forall_ne_some.2 fun log some_log =>
      Set.notMem_empty _ (calm.log log some_log)
    have same : c.note text ws.world = ws.world := by rw [Conduct.note, logless]
    exact ⟨congrArg World.disk same, congrArg World.cwd same⟩
  · exact fun ws => c.stopped_disk ws.world
  · exact fun command failure s ws =>
      ⟨calm.disk command failure s ws.world, calm.cwd command failure s ws.world⟩

/-- An edit that can be made is made or cancelled. -/
theorem executed_wishes (c : Conduct σ) {b : Batch} {command : Command}
    (commands : b.commands = [command]) (fits : s.session.items.wishes.Fits command) :
    (executed c b s).session.items.wishes = s.session.items.wishes ∨
      (executed c b s).session.items.wishes = s.session.items.wishes.amended command := by
  have place := s.session.history.call_place c.machine c.policy.onWorkspace
    (stateOf s (some s.session.items)) (.execute b)
  rw [History.running, commands] at place
  have items : (executed c b s).session.items = (Run.commands c.machine c.policy.onWorkspace false
      [command] (stateOf s (some s.session.items))).2.place.items.getD s.session.items :=
    congrArg (fun ws : Workspace => ws.items.getD s.session.items) place
  rw [items]
  cases going : (c.stopped s.world).1 with
  | true =>
      obtain ⟨-, same⟩ := Conduct.run_cancelled (r := stateOf s (some s.session.items)) c command going
      rw [same]
      exact .inl rfl
  | false =>
      obtain ⟨r', set', ran, -, made, wishes⟩ :=
        Conduct.run_fits (r := stateOf s (some s.session.items)) c false rfl fits going
      rw [ran, made]
      exact .inr wishes

theorem executed_sameDisk (calm : c.Calm ∅) {b : Batch}
    (edits : ∀ command ∈ b.commands, command.isRecorded = false) (s : Sitting σ) :
    (executed c b s).world.disk = s.world.disk ∧ (executed c b s).world.cwd = s.world.cwd := by
  have place := s.session.history.call_place c.machine c.policy.onWorkspace
    (stateOf s (some s.session.items)) (.execute b)
  have same := run_sameDisk calm edits (stateOf s (some s.session.items))
  rw [History.running] at place
  rw [← place] at same
  exact same

/-- Wanting other states for the same paths leaves the states as fresh as they were. -/
theorem restate_fresh {edit : Path → FileState → FileState} (calm : c.Calm ∅)
    (keeps : ∀ source state, (edit source state).path = state.path)
    (keyed : s.session.items.Keyed) (fresh : s.session.items.Fresh s.world) :
    (Edit.run (.restate edit) c s).session.items.Fresh (Edit.run (.restate edit) c s).world := by
  have world := s.session.items.touchItems_world s.world
  rw [run_restate]
  generalize read : s.session.items.touchItems.run.run s.world = out at world ⊢
  obtain ⟨failure | items, w⟩ := out
  · cases world
    exact fresh
  · obtain ⟨rfl, items_fresh⟩ := fresh.touchItems read
    have items_keyed := keyed.touchItems read
    obtain ⟨apart, meets⟩ := restatements_fit items_keyed edit
    dsimp only
    split
    · intro items' same
      cases same
      exact items_fresh
    · let looked : Sitting σ := s.withItems { s.session.items with touch := some items }
      let b : Batch := { kind := .restate, commands := [.restate (restatements items edit)] }
      have fits : looked.session.items.wishes.Fits (.restate (restatements items edit)) :=
        ⟨rfl, List.Pairwise.nil, List.forall_mem_nil _, apart, fun _ => ⟨items, rfl, meets⟩⟩
      obtain ⟨disk, cwd⟩ :=
        executed_sameDisk calm (b := b) (List.forall_mem_singleton.2 rfl) looked
      have later : ∀ items : TouchItems, items.Fresh s.world → items.Fresh (executed c b looked).world :=
        fun items fresh e member => ⟨(fresh e member).1.of_disk_eq disk cwd, (fresh e member).2⟩
      intro items' built
      obtain same | amended := executed_wishes (b := b) c rfl fits
      · have touch : (executed c b looked).session.items.touch = some items :=
          congrArg Wishes.states same
        cases touch.symm.trans built
        exact later items items_fresh
      · have touch : (executed c b looked).session.items.touch =
            some (items.amend .state (restatements items edit)) := congrArg Wishes.states amended
        cases touch.symm.trans built
        exact later _ (items_fresh.amend (items_fresh.keeps_restatements items_keyed keeps))

/-! ## The attempts of a commit and of an undo -/

/-- The attempts at writing states that a commit of them makes. -/
def touchTries (c : Conduct σ) (s : Sitting σ) : List (Command × Workspace) :=
  let (now, s) := s.readClock
  match s.session.items.touchItems.run.run s.world with
  | (.error _, _) => []
  | (.ok items, world) =>
    Run.tries c.machine c.policy.onWorkspace false (touchBatch items now).commands s.answers
      ⟨world, none⟩

/-- The attempts that an undo makes. -/
def undoTries (c : Conduct σ) (s : Sitting σ) : List (Command × Workspace) :=
  let (inverse, commands) := s.session.history.running .undo
  Run.tries c.machine c.policy.onWorkspace inverse commands s.answers
    ⟨s.world, some s.session.items⟩

/-- What a commit that wrote something did, in the world in which it read the clock. -/
structure Committed (c : Conduct σ) (logs : Set Nat) (s s₁ : Sitting σ) (ran : Batch)
    (touched : Set Nat) : Prop where
  newest : s₁.session.history.toUndo? = some ran
  wrote : ran.Wrote s.readClock.2.world touched
  altered : World.Altered logs touched s.readClock.2.world s₁.world
  tries : ∀ attempt ∈ touchTries c s, attempt.1.TouchesFrom s.readClock.2.world ∧
    ∃ touched, World.Altered logs touched s.readClock.2.world attempt.2.world

/-- A commit that wrote something has put what ran of it on top of the history. -/
theorem commitTouch_committed (fresh : s.session.items.Fresh s.world) (proper : s.world.disk.Proper)
    (calm : c.Calm logs) (committed : (commitTouch c).run.run s = (.ok true, s₁)) :
    ∃ ran touched, Committed c logs s s₁ ran touched := by
  have fresh : s.readClock.2.session.items.Fresh s.readClock.2.world := fresh
  have proper : s.readClock.2.world.disk.Proper := proper
  rw [run_commitTouch_eq] at committed
  dsimp only at committed
  generalize read : s.readClock.2.session.items.touchItems.run.run s.readClock.2.world = out
    at committed
  obtain ⟨failure | items, w⟩ := out
  · cases committed
  obtain ⟨rfl, items_fresh⟩ := fresh.touchItems read
  have touches := items_fresh.touchBatch s.readClock.1
  dsimp only at committed
  split at committed
  · cases committed
  rw [run_execute] at committed
  dsimp only at committed
  rw [if_neg Bool.false_ne_true] at committed
  obtain ⟨executed, rfl⟩ := Prod.mk.inj committed
  let start : Sitting σ :=
    s.readClock.2.withItems { s.readClock.2.session.items with touch := some items }
  obtain ⟨is_some, newest⟩ := start.session.history.execute_ran? c.machine c.policy.onWorkspace
    (touchBatch items s.readClock.1) (stateOf start none)
  have place := start.session.history.execute_state c.machine c.policy.onWorkspace
    (touchBatch items s.readClock.1) (stateOf start none)
  have executed : (start.session.history.execute c.machine c.policy.onWorkspace
    (touchBatch items s.readClock.1) (stateOf start none)).1 = true := Except.ok.inj executed
  rw [executed] at is_some
  obtain ⟨ran, some_ran⟩ := Option.isSome_iff_exists.1 is_some.symm
  obtain ⟨touched, wrote, altered⟩ := Batch.execute_touches (r := stateOf start none) calm proper
    touches some_ran
  rw [← place] at altered
  refine ⟨ran, touched, (newest is_some.symm).trans some_ran, wrote, altered, ?_⟩
  rw [touchTries]
  dsimp only
  rw [read]
  exact (calm.refines_touch proper).tries (a := ∅) (fun _ => Command.TouchesFrom.isTouch) touches
    (.refl _)

/-- An undo that is not cancelled brings back what a commit wrote. -/
theorem Committed.undo {ran : Batch} {touched : Set Nat} (done : Committed c₁ logs s s₁ ran touched)
    (proper : s.world.disk.Proper) (calm : c₂.Calm logs) (session : t.session = s₁.session)
    (meanwhile : World.Altered logs ∅ s₁.world t.world)
    (uncancelled : ((undo c₂).run t).2.report.cancelled = false) :
    World.Altered logs ∅ s.readClock.2.world ((undo c₂).run t).2.world ∧
      ((undo c₂).run t).1 = some ran ∧ ((undo c₂).run t).2.report.failed = t.report.failed ∧
      ∀ attempt ∈ undoTries c₂ t, ∃ touched, World.Altered logs touched s.readClock.2.world
        attempt.2.world := by
  have proper : s.readClock.2.world.disk.Proper := proper
  have altered := done.altered.andLogged meanwhile
  have newest := done.newest
  rw [← session] at newest
  have tries := (calm.refines_touch proper).tries (s := t.answers)
    (w := ⟨t.world, some t.session.items⟩) (fun _ => id)
    (fun command member => (done.wrote.inverse command member).1) altered
  obtain ⟨came_back, state⟩ := History.undo_of_toUndo? newest c₂.machine c₂.policy.onWorkspace
    (stateOf t (some t.session.items))
  rw [run_undo_eq] at uncancelled ⊢
  dsimp only at uncancelled ⊢
  rw [turned_report, state] at uncancelled ⊢
  rw [turned_world, state, came_back, undoTries, History.running, newest]
  obtain ⟨restored, whole, failed⟩ := done.wrote.undo calm proper
    (r := stateOf t (some t.session.items)) altered uncancelled
  refine ⟨restored, congrArg Split.ran whole, failed, fun attempt member => ?_⟩
  exact (tries attempt member).2

/-- A write that fails is one to a path that shows the same in all worlds that differ in
files only. -/
theorem shows_of_fails {base : World} {touched : Set Nat} {attempt : Command × Workspace}
    (touches : attempt.1.TouchesFrom base) (proper : base.disk.Proper)
    (altered : World.Altered logs touched base attempt.2.world)
    (fails : (attempt.1.execute.run.run attempt.2).1 ≠ .ok ()) :
    ∃ p stats, Batch.pathOf? attempt.1 = some p ∧ base.disk.readStats base.cwd p = .ok stats ∧
      ∀ touched w, World.Altered logs touched base w → w.disk.readStats w.cwd p = .ok stats := by
  obtain ⟨command, ws⟩ := attempt
  have nowhere : base.target? command = none := by
    cases result : (command.execute.run.run ws).1 with
    | ok => exact absurd result fails
    | error failure => exact altered.leads_of_fails proper touches.isTouch result
  cases command with
  | touch former target =>
      obtain ⟨⟨stats, shown, -⟩, same⟩ := touches
      rw [← same] at shown
      refine ⟨target.path, stats, rfl, shown, fun touched w altered => ?_⟩
      exact altered.readStats_of_none nowhere shown
  | _ => exact touches.elim

/-- Wanted file states are committed, and then that is undone. If the states were still what
the files had, all that any path shows is restored, whatever ran of the commit: what ran is
undone as a whole, and nothing of that fails. A path to which writing failed shows the same
stats all the time. Others may write to the logs in between, and to nothing else. -/
theorem undo_restores (fresh : s.session.items.Fresh s.world) (proper : s.world.disk.Proper)
    (calm₁ : c₁.Calm logs) (calm₂ : c₂.Calm logs)
    (committed : (commitTouch c₁).run.run s = (.ok true, s₁)) (session : t.session = s₁.session)
    (meanwhile : World.Altered logs ∅ s₁.world t.world)
    (uncancelled : ((undo c₂).run t).2.report.cancelled = false) :
    World.Restored logs s.world ((undo c₂).run t).2.world ∧
      (((undo c₂).run t).1.isSome = true ∧ ((undo c₂).run t).1 = s₁.session.history.toUndo?) ∧
      ((undo c₂).run t).2.report.failed = t.report.failed ∧
      ∀ attempt ∈ touchTries c₁ s, (attempt.1.execute.run.run attempt.2).1 ≠ .ok () →
        ∃ p stats, Batch.pathOf? attempt.1 = some p ∧
          ∀ w ∈ s.world :: s₁.world :: t.world :: ((undo c₂).run t).2.world ::
              (touchTries c₁ s ++ undoTries c₂ t).map (fun seen => seen.2.world),
            w.disk.readStats w.cwd p = .ok stats := by
  obtain ⟨ran, touched, done⟩ := commitTouch_committed fresh proper calm₁ committed
  obtain ⟨restored, whole, failed, undone⟩ := done.undo proper calm₂ session meanwhile uncancelled
  refine ⟨restored.restored, ?_, failed, fun attempt member fails => ?_⟩
  · rw [whole, done.newest]
    exact ⟨rfl, rfl⟩
  · obtain ⟨touches, _, altered⟩ := done.tries attempt member
    obtain ⟨p, stats, path, shown, same⟩ := shows_of_fails touches proper altered fails
    refine ⟨p, stats, path, fun w seen => ?_⟩
    simp only [List.mem_cons, List.map_append, List.mem_append, List.mem_map] at seen
    obtain rfl | rfl | rfl | rfl | ⟨seen, among, rfl⟩ | ⟨seen, among, rfl⟩ := seen
    · exact shown
    · exact same _ _ done.altered
    · exact same _ _ (done.altered.andLogged meanwhile)
    · exact same _ _ restored
    · obtain ⟨_, altered⟩ := (done.tries seen among).2
      exact same _ _ altered
    · obtain ⟨_, altered⟩ := undone seen among
      exact same _ _ altered

/-- Files with several names are to be read-only, and so is a folder. The user wants to stop
before the last of them. -/
def linkedSitting : Sitting Unit :=
  let w := (World.sample [("a", "first"), ("b", "second")]).withFolder "d"
  let disk := w.disk.put (sampleFolder ++ [Text.bytesOf "hard"]) (.file 0)
  let disk := disk.put (sampleFolder ++ [Text.bytesOf "soft"]) (.link (.ofString "b"))
  let sources : List Path :=
    [.ofString "/w/a", .ofString "/w/d", .ofString "/w/hard", .ofString "/w/soft", .ofString "/w/b"]
  let lock : FileState → FileState :=
    fun state => { state with attributes := state.attributes.set Attributes.readonlyFlag true }
  let first : Sitting Unit := ⟨⟨.ofSources sources, { limit := 4 }, .ofString "/w/undo", false⟩,
    { w with disk }, (), {}⟩
  let locked := Edit.run (.restate fun _ => lock) .plain first
  { locked with world := { locked.world with interrupt := some 4 } }

/-- All names that were written to are undone, the folder fails, and the last is left out. -/
theorem undo_restores_linked :
    let c : Conduct Unit := { policy := .fixed true, heedsStop := true }
    let s₁ := ((commitTouch c).run.run linkedSitting).2
    s₁.report.failed.length = 1 ∧ s₁.report.cancelled = true ∧ s₁.report.executed = 4 ∧
      World.Restored ∅ linkedSitting.world ((undo .plain).run { s₁ with report := {} }).2.world := by
  intro c s₁
  refine ⟨by decide +kernel, by decide +kernel, by decide +kernel, ?_⟩
  have calm : c.Calm ∅ := ⟨fun _ _ _ _ => rfl, fun _ _ _ _ => rfl, fun _ same => nomatch same⟩
  have plain : (Conduct.plain : Conduct Unit).Calm ∅ :=
    ⟨fun _ _ _ _ => rfl, fun _ _ _ _ => rfl, fun _ same => nomatch same⟩
  have fresh : linkedSitting.session.items.Fresh linkedSitting.world :=
    restate_fresh plain (fun _ _ => rfl) (keyed_ofSources _) fun _ built => nomatch built
  have committed : (commitTouch c).run.run linkedSitting = (.ok true, s₁) :=
    Prod.ext (by decide +kernel) rfl
  exact (undo_restores (t := { s₁ with report := {} }) fresh (by decide +kernel) calm plain committed
    rfl (.refl _) (by decide +kernel)).1

/-- A file and the log are to be modified at another time. -/
def loggedSitting : Sitting Unit :=
  let w := World.sample [("a", "first"), ("log", "")]
  let date : FileState → FileState := fun state => { state with modified := some ⟨86400, 0⟩ }
  Edit.run (.restate fun _ => date) .plain
    ⟨⟨.ofSources [.ofString "/w/a", .ofString "/w/log"], { limit := 4 }, .ofString "/w/undo", false⟩,
      w, (), {}⟩

/-- The time when a log was modified is not always restored. -/
theorem not_undo_restores_logged :
    ¬∀ (c : Conduct Unit) (s s₁ : Sitting Unit), s.session.items.Fresh s.world →
      s.world.disk.Proper → c.Calm Set.univ → (commitTouch c).run.run s = (.ok true, s₁) →
      ((undo c).run s₁).2.report.cancelled = false →
      World.Restored ∅ s.world ((undo c).run s₁).2.world := by
  intro always
  let c : Conduct Unit := { policy := .fixed false, log := some ⟨1⟩ }
  let s₁ := ((commitTouch c).run.run loggedSitting).2
  let shown (w : World) : Option Time.Instant :=
    (w.disk.readStats w.cwd (.ofString "/w/log")).toOption.map Stats.modified
  have calm : c.Calm Set.univ := ⟨fun _ _ _ _ => rfl, fun _ _ _ _ => rfl, fun _ _ => trivial⟩
  have plain : (Conduct.plain : Conduct Unit).Calm ∅ :=
    ⟨fun _ _ _ _ => rfl, fun _ _ _ _ => rfl, fun _ same => nomatch same⟩
  have fresh : loggedSitting.session.items.Fresh loggedSitting.world :=
    restate_fresh plain (fun _ _ => rfl) (keyed_ofSources _) fun _ built => nomatch built
  have committed : (commitTouch c).run.run loggedSitting = (.ok true, s₁) :=
    Prod.ext (by decide +kernel) rfl
  have restored := always c loggedSitting s₁ fresh (by decide +kernel) calm committed (by decide +kernel)
  have differs : shown ((undo c).run s₁).2.world ≠ shown loggedSitting.world := by decide +kernel
  have readable : (shown loggedSitting.world).isSome = true := by decide +kernel
  obtain ⟨stats, read, -⟩ := Outcome.exists_of_toOption (Option.some_get readable).symm
  obtain ⟨stats', read', -, -, -, same | ⟨_, logged, -⟩⟩ := restored _ stats read
  · have before : shown loggedSitting.world = some stats.modified := by
      simp only [shown, read]
      rfl
    have after : shown ((undo c).run s₁).2.world = some stats'.modified := by
      simp only [shown, read']
      rfl
    rw [before, after, same] at differs
    exact differs rfl
  · exact Set.notMem_empty _ logged

end Session

end Renumber
