import Renumber.Proofs.Run.Tally
import Renumber.Proofs.Session.Amend
import Renumber.Proofs.World.Restate
import Renumber.Session

/-!
# What stays of a working set

Whatever runs on a workspace, the working set is about the same sources, and a file state
that was read stays where it was read. Only a session changes the sources, when it follows
files that have moved. Edits change what is wanted, and never the world.
-/

namespace Renumber

open Outcome

/-! ## States that were read -/

namespace TouchItems

variable {items : TouchItems}

/-- Every state stands at the path that it was read at. -/
def Keyed (items : TouchItems) : Prop :=
  ∀ e ∈ items.entries, e.2.former.path = e.1

/-- For every file its own state is wanted. -/
def Untouched (items : TouchItems) : Prop :=
  ∀ e ∈ items.entries, e.2.wanted = e.2.former

theorem of_mem_ofStates {states : List FileState} {e : Path × TouchItem}
    (member : e ∈ (ofStates states).entries) : ∃ s ∈ states, e = (s.path, ⟨s, s⟩) := by
  obtain ⟨s, among, same⟩ := List.mem_map.1 (PathMap.mem_of_mem_ofFirsts member)
  exact ⟨s, among, same.symm⟩

theorem keyed_ofStates (states : List FileState) : (ofStates states).Keyed := by
  intro e member
  obtain ⟨s, -, rfl⟩ := of_mem_ofStates member
  rfl

theorem untouched_ofStates (states : List FileState) : (ofStates states).Untouched := by
  intro e member
  obtain ⟨s, -, rfl⟩ := of_mem_ofStates member
  rfl

theorem read_ok {sources : List Path} {w w' : World}
    (ok : (read sources).run.run w = (.ok items, w')) : items.Keyed ∧ items.Untouched := by
  obtain ⟨states, _, -, made⟩ := bind_eq_ok ok
  cases made
  exact ⟨keyed_ofStates states, untouched_ofStates states⟩

theorem Keyed.amend (keyed : items.Keyed) (changes : List (Change FileState)) :
    TouchItems.Keyed (items.amend .state changes) := by
  intro e member
  obtain ⟨x, before, rfl⟩ := List.mem_map.1 member
  rw [← keyed x before]
  dsimp only
  split <;> rfl

theorem Keyed.foldl (keyed : items.Keyed) (changes : List (Change FileState)) :
    TouchItems.Keyed (changes.foldl PathMap.want items) := by
  induction changes generalizing items with
  | nil => exact keyed
  | cons c changes ih =>
      rw [List.foldl_cons, PathMap.want_eq_amend]
      exact ih (keyed.amend [c])

end TouchItems

/-! ## Reading -/

/-- Reading states leaves the world as it is. -/
theorem TouchItems.read_world (sources : List Path) (w : World) :
    ((TouchItems.read sources).run.run w).2 = w := by
  have trans : ∀ u v w : World, u = v → v = w → u = w := fun _ _ _ => Eq.trans
  have states : Along Eq (sources.mapM fun source =>
      ExceptT.adapt (Failure.unreadable source) (FileState.read source)) := by
    apply Along.mapM Eq.refl trans
    intro source
    apply Along.adapt
    intro w
    rw [FileState.run_read]
  exact (states.bind trans (fun _ => .pure Eq.refl _) w).symm

theorem WorkingSet.touchItems_world (set : WorkingSet) (w : World) :
    (set.touchItems.run.run w).2 = w := by
  rw [WorkingSet.touchItems]
  split
  · rfl
  · exact TouchItems.read_world _ w

/-! ## Commands -/

/-- The file states that are built stand at the paths they were read at. -/
def WorkingSet.Keyed (set : WorkingSet) : Prop :=
  ∀ items, set.touch = some items → items.Keyed

theorem WorkingSet.Keyed.touchItems {set : WorkingSet} (keyed : set.Keyed) {items : TouchItems}
    {w w' : World} (ok : set.touchItems.run.run w = (.ok items, w')) : items.Keyed := by
  rw [WorkingSet.touchItems] at ok
  split at ok
  · next built =>
    cases ok
    exact keyed _ built
  · exact (TouchItems.read_ok ok).1

/-- A working set that is about the same sources. -/
structure WorkingSet.Kept (set set' : WorkingSet) : Prop where
  sources : set'.sources = set.sources
  keyed : set.Keyed → set'.Keyed

theorem WorkingSet.Kept.refl (set : WorkingSet) : WorkingSet.Kept set set :=
  ⟨rfl, id⟩

theorem WorkingSet.Kept.trans {u v w : WorkingSet} (first : WorkingSet.Kept u v)
    (second : WorkingSet.Kept v w) : WorkingSet.Kept u w :=
  ⟨second.sources.trans first.sources, second.keyed ∘ first.keyed⟩

/-- A workspace with a working set that is about the same sources, or still without one. -/
def Workspace.Kept (ws ws' : Workspace) : Prop :=
  Option.Rel WorkingSet.Kept ws.items ws'.items

theorem Workspace.Kept.of_eq {ws ws' : Workspace} (same : ws'.items = ws.items) : ws.Kept ws' := by
  rw [Workspace.Kept, same]
  cases ws.items with
  | none => exact .none
  | some set => exact .some (.refl set)

theorem Workspace.Kept.trans (u v w : Workspace) (first : u.Kept v) (second : v.Kept w) :
    u.Kept w := by
  rw [Workspace.Kept] at first second ⊢
  generalize u.items = a, v.items = b, w.items = c at first second ⊢
  cases first with
  | none => exact second
  | some first =>
      cases second with
      | some second => exact .some (first.trans second)

namespace Command

/-- Changes of destinations are made if all their sources are known. The destinations are
built either way. -/
theorem run_applyPaths_some (changes : List (Change Path)) (w : World) (set : WorkingSet) :
    (applyPaths changes).run.run ⟨w, some set⟩ = match unknownSource? set.renameItems changes with
      | some source => (.error (.unknownItem source), ⟨w, some set.withRename⟩)
      | none => (.ok (), ⟨w, some { set with
          rename := some (changes.foldl (fun items c => items.set c.source c.after)
            set.renameItems) }⟩) := by
  have found : Workspace.workingSet.run.run ⟨w, some set⟩ = (.ok set, ⟨w, some set⟩) := rfl
  have built : set.withRename.renameItems = set.renameItems := rfl
  rw [applyPaths, run_bind, found]
  simp only [run_bind, Workspace.setItems, run_modify, built]
  cases unknownSource? set.renameItems changes <;> rfl

/-- Changes of file states are made if the states can be read and all sources are known. -/
theorem run_applyStates_some (changes : List (Change FileState)) (w : World) (set : WorkingSet) :
    (applyStates changes).run.run ⟨w, some set⟩ =
      if changes.isEmpty then (.ok (), ⟨w, some set⟩)
      else match set.touchItems.run.run w with
        | (.error failure, w) => (.error failure, ⟨w, some set⟩)
        | (.ok items, w) => match unknownSource? items changes with
          | some source =>
            (.error (.unknownItem source), ⟨w, some { set with touch := some items }⟩)
          | none =>
            (.ok (), ⟨w, some { set with touch := some (changes.foldl PathMap.want items) }⟩) := by
  have found : Workspace.workingSet.run.run ⟨w, some set⟩ = (.ok set, ⟨w, some set⟩) := rfl
  have read : (Workspace.onWorld set.touchItems).run.run ⟨w, some set⟩ =
      ((set.touchItems.run.run w).1, ⟨(set.touchItems.run.run w).2, some set⟩) := rfl
  rw [applyStates, run_bind, found]
  dsimp only
  rw [run_ite]
  split
  · rfl
  · rw [run_bind, read]
    rcases set.touchItems.run.run w with ⟨_ | items, w'⟩
    · rfl
    · simp only [run_bind, Workspace.setItems, run_modify]
      cases unknownSource? items changes <;> rfl

/-- Edits leave the world as it is. -/
theorem applyPaths_world (changes : List (Change Path)) :
    Along (fun ws ws' => ws'.world = ws.world) (applyPaths changes) := by
  rintro ⟨w, _ | set⟩
  · rfl
  · rw [run_applyPaths_some]
    split <;> rfl

theorem applyStates_world (changes : List (Change FileState)) :
    Along (fun ws ws' => ws'.world = ws.world) (applyStates changes) := by
  rintro ⟨w, _ | set⟩
  · rfl
  · have same := set.touchItems_world w
    rw [run_applyStates_some]
    split
    · rfl
    · generalize set.touchItems.run.run w = out at same ⊢
      obtain ⟨_ | items, w'⟩ := out
      · exact same
      · dsimp only
        split <;> exact same

theorem execute_world {command : Command} (edit : command.isRecorded = false) :
    Along (fun ws ws' => ws'.world = ws.world) command.execute := by
  cases command with
  | rename | touch => cases edit
  | redirect changes => exact applyPaths_world changes
  | restate changes => exact applyStates_world changes
  | reset paths states =>
      refine (applyPaths_world paths).bind ?_ fun _ => applyStates_world states
      exact fun _ _ _ first second => second.trans first
  | edit change => exact applyPaths_world [change]

theorem applyPaths_kept (changes : List (Change Path)) :
    Along Workspace.Kept (applyPaths changes) := by
  rintro ⟨w, _ | set⟩
  · exact .none
  · rw [run_applyPaths_some]
    split <;> exact .some ⟨rfl, id⟩

theorem applyStates_kept (changes : List (Change FileState)) :
    Along Workspace.Kept (applyStates changes) := by
  rintro ⟨w, _ | set⟩
  · exact .none
  · rw [run_applyStates_some]
    split
    · exact .some (.refl set)
    split
    · exact .some (.refl set)
    · next items w' read =>
      split
      · exact .some ⟨rfl, fun keyed _ same => Option.some.inj same ▸ keyed.touchItems read⟩
      · exact .some ⟨rfl, fun keyed _ same => Option.some.inj same ▸ (keyed.touchItems read).foldl _⟩

theorem execute_kept (command : Command) : Along Workspace.Kept command.execute := by
  cases command with
  | rename | touch => exact fun ws => .of_eq rfl
  | redirect changes => exact applyPaths_kept changes
  | restate changes => exact applyStates_kept changes
  | reset paths states =>
      exact (applyPaths_kept paths).bind Workspace.Kept.trans fun _ => applyStates_kept states
  | edit change => exact applyPaths_kept [change]

end Command

/-- A run keeps the working set on its sources, whatever it runs. -/
theorem Conduct.run_kept {σ : Type} (c : Conduct σ) (inverse : Bool) (cs : List Command)
    (r : Run.State σ Workspace) :
    r.place.Kept (Run.commands c.machine c.policy.onWorkspace inverse cs r).2.place := by
  have execute : ∀ (command : Command) (ws : Workspace), True →
      ws.Kept (c.machine.execute command ws).2 := fun command ws _ => command.execute_kept ws
  apply Run.steps_related (fun ws => .of_eq rfl) Workspace.Kept.trans execute ?_ ?_ ?_
    (fun _ _ => trivial)
    { r with report := { r.report with total := r.report.total + cs.length } }
  · exact fun text ws => .of_eq rfl
  · exact fun ws => .of_eq rfl
  · exact fun command failure s ws => .of_eq rfl

end Renumber
