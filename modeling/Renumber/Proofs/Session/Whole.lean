import Renumber.Proofs.Session.Wishes
import Renumber.Proofs.World.Sample

/-!
# Edits that fail

Changes of destinations and changes of file states are each checked before any of them is made, so
that an edit of one kind which fails leaves what is wanted. A reset makes both kinds, one behind the
other, and the second is not checked before the first is made. So a reset can fail half done, and
no other command can.
-/

namespace Renumber

open Outcome

variable {set : WorkingSet} {w : World} {ws ws' now mid before : Workspace} {failure : Failure}

namespace Workspace

/-- The working set has the wishes of another one, or both are missing. -/
def Restores (now before : Workspace) : Prop :=
  Option.Rel (fun set set' => Wishes.Restores set'.wishes set.wishes) before.items now.items

theorem Restores.of_items (same : now.items = before.items) : now.Restores before := by
  rw [Restores, same]
  cases before.items with
  | none => exact .none
  | some set => exact .some (.refl set.wishes)

end Workspace

namespace Command

/-- The working set after changes of destinations. -/
def redirected (set : WorkingSet) (changes : List (Change Path)) : WorkingSet :=
  { set with rename := some (changes.foldl (fun items c => items.set c.source c.after) set.renameItems) }

/-- A reset whose destinations can be taken back, and are others then, while its file states cannot be. -/
def HalfDone (ws : Workspace) : Command → Prop
  | reset paths states => ∃ set, ws.items = some set ∧ unknownSource? set.renameItems paths = none ∧
      (redirected set paths).renameItems ≠ set.renameItems ∧
      ∃ failure, ((applyStates states).run.run ws).1 = .error failure
  | _ => False

/-! ## Changes of one kind -/

theorem applyPaths_error {changes : List (Change Path)}
    (failed : (applyPaths changes).run.run ws = (.error failure, ws')) : ws'.Restores ws := by
  obtain ⟨w, _ | set⟩ := ws
  · cases failed
    exact .none
  · rw [run_applyPaths_some] at failed
    split at failed
    · cases failed
      exact .some (.refl set.wishes)
    · cases failed

theorem applyPaths_ok {changes : List (Change Path)}
    (done : (applyPaths changes).run.run ws = (.ok (), ws')) :
    ∃ set, ws.items = some set ∧ unknownSource? set.renameItems changes = none ∧
      ws' = ⟨ws.world, some (redirected set changes)⟩ := by
  obtain ⟨w, _ | set⟩ := ws
  · cases done
  · rw [run_applyPaths_some] at done
    split at done
    · cases done
    · next known =>
      cases done
      exact ⟨set, rfl, known, rfl⟩

/-- The states are read for the first time, or they were built and stay. -/
theorem restores_withTouch {items : TouchItems} {w' : World}
    (read : set.touchItems.run.run w = (.ok items, w')) :
    Wishes.Restores { set with touch := some items }.wishes set.wishes := by
  rw [WorkingSet.touchItems] at read
  split at read
  · next items' built =>
    cases read
    rw [← built]
    exact .refl set.wishes
  · next unread =>
    refine ⟨rfl, rfl, fun items' known => ?_, fun _ items' same => ?_⟩
    · cases unread.symm.trans known
    · cases same
      exact (TouchItems.read_ok read).2

theorem applyStates_error {changes : List (Change FileState)}
    (failed : (applyStates changes).run.run ws = (.error failure, ws')) : ws'.Restores ws := by
  obtain ⟨w, _ | set⟩ := ws
  · cases failed
    exact .none
  · rw [run_applyStates_some] at failed
    split at failed
    · cases failed
    split at failed
    · cases failed
      exact .some (.refl set.wishes)
    · next items w' read =>
      split at failed
      · cases failed
        exact .some (restores_withTouch read)
      · cases failed

/-- Whether file states can be changed does not depend on the destinations. -/
theorem applyStates_redirected (paths : List (Change Path)) (states : List (Change FileState)) (w : World)
    (set : WorkingSet) :
    ((applyStates states).run.run ⟨w, some (redirected set paths)⟩).1 =
      ((applyStates states).run.run ⟨w, some set⟩).1 := by
  have read : (redirected set paths).touchItems = set.touchItems := rfl
  rw [run_applyStates_some, run_applyStates_some, read]
  split
  · rfl
  · rcases set.touchItems.run.run w with ⟨cause | items, w'⟩
    · rfl
    · dsimp only
      cases unknownSource? items states <;> rfl

/-! ## Resets -/

/-- A reset fails at its destinations, and leaves what is wanted, or behind them. -/
theorem reset_error {paths : List (Change Path)} {states : List (Change FileState)}
    (failed : (reset paths states).execute.run.run ws = (.error failure, ws')) :
    ws'.Restores ws ∨ ∃ set, ws.items = some set ∧ unknownSource? set.renameItems paths = none ∧
      (applyStates states).run.run ⟨ws.world, some (redirected set paths)⟩ = (.error failure, ws') := by
  rw [execute, run_bind] at failed
  cases first : (applyPaths paths).run.run ws with
  | mk result mid =>
      rw [first] at failed
      cases result with
      | error cause =>
          cases failed
          exact .inl (applyPaths_error first)
      | ok =>
          obtain ⟨set, items, known, rfl⟩ := applyPaths_ok first
          exact .inr ⟨set, items, known, failed⟩

/-- Behind destinations that can be taken back, a reset does what its file states allow. -/
theorem run_reset {paths : List (Change Path)} (states : List (Change FileState))
    (items : ws.items = some set) (known : unknownSource? set.renameItems paths = none) :
    (reset paths states).execute.run.run ws =
      (applyStates states).run.run ⟨ws.world, some (redirected set paths)⟩ := by
  obtain ⟨w, _⟩ := ws
  cases items
  rw [execute, run_bind, run_applyPaths_some, known]
  rfl

/-- What is wanted is as before iff the changes of destinations changed none. -/
theorem restores_redirected_iff {paths : List (Change Path)} (items : ws.items = some set)
    (rest : ws'.Restores ⟨ws.world, some (redirected set paths)⟩) :
    ws'.Restores ws ↔ (redirected set paths).renameItems = set.renameItems := by
  obtain ⟨w, _⟩ := ws
  obtain ⟨w', _⟩ := ws'
  cases items
  cases rest with
  | some later =>
      constructor
      · intro back
        cases back with
        | some back => exact later.paths.symm.trans back.paths
      · intro same
        have sooner : (redirected set paths).wishes = set.wishes :=
          congrArg (Wishes.mk set.sources · set.touch) same
        rw [sooner] at later
        exact .some later

/-- A command that fails leaves what is wanted for every source, unless it is a reset that was half done:
its destinations could be taken back and were changed by that, and its file states could not. -/
theorem execute_restores_iff (c : Command) (ws : Workspace) :
    (∀ failure ws', c.execute.run.run ws = (.error failure, ws') → ws'.Restores ws) ↔ ¬c.HalfDone ws := by
  constructor
  · intro whole half
    cases c with
    | rename | touch | redirect | restate | edit => exact half
    | reset paths states =>
        obtain ⟨set, items, known, differs, failure, stuck⟩ := half
        have ran := run_reset states items known
        have result := applyStates_redirected paths states ws.world set
        rw [← items] at result
        cases behind : (applyStates states).run.run ⟨ws.world, some (redirected set paths)⟩ with
        | mk outcome ws' =>
            rw [behind] at ran result
            obtain rfl : outcome = .error failure := result.trans stuck
            have back := whole failure ws' ran
            exact differs ((restores_redirected_iff items (applyStates_error behind)).1 back)
  · intro not_half failure ws' failed
    cases c with
    | rename | touch => exact .of_items (congrArg (·.2.items) failed).symm
    | redirect | edit => exact applyPaths_error failed
    | restate => exact applyStates_error failed
    | reset paths states =>
        obtain back | ⟨set, items, known, behind⟩ := reset_error failed
        · exact back
        · rw [restores_redirected_iff items (applyStates_error behind)]
          by_contra differs
          have result := applyStates_redirected paths states ws.world set
          rw [behind, ← items] at result
          exact not_half ⟨set, items, known, differs, failure, result.symm⟩

/-- Where the file itself is missing, taking back its destination goes through, and then taking back its
state fails. -/
theorem not_restores_reset :
    let a : Path := .ofString "/w/a"
    let wanted : RenameItems := (RenameItems.ofSources [a]).set a (.ofString "/w/x")
    let ws : Workspace := ⟨World.sample [], some ⟨[a], some wanted, none⟩⟩
    let c : Command := .reset [⟨a, .ofString "/w/x", ⟨[]⟩⟩] [⟨a, .empty a, .empty a⟩]
    (c.execute.run.run ws).1 = .error (.unreadable a .missing) ∧ ¬(c.execute.run.run ws).2.Restores ws := by
  intro a wanted ws c
  refine ⟨by decide +kernel, fun back => ?_⟩
  have forgotten : (c.execute.run.run ws).2.items.map (·.renameItems.entries) = some [(a, ⟨[]⟩)] := by
    decide +kernel
  have held : ws.items.map (·.renameItems.entries) = some [(a, .ofString "/w/x")] := by decide +kernel
  have same : (c.execute.run.run ws).2.items.map (·.renameItems.entries) =
      ws.items.map (·.renameItems.entries) := by
    rw [Workspace.Restores] at back
    generalize (c.execute.run.run ws).2.items = now, ws.items = before at back
    cases back with
    | none => rfl
    | some back => exact congrArg (some ·.entries) back.paths
  rw [forgotten, held] at same
  exact absurd same (by decide +kernel)

end Command

end Renumber
