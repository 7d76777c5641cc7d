import Renumber.Proofs.Session.Operations

/-!
# What edits do to wishes

An edit tells for every source that it changes what was wanted before. Where that is what
is wanted, the edit can be made, and its inverse leads back. Neither needs more of the
wishes than what they hold for these sources, so both can be made as well where wishes
have only been looked at since.
-/

namespace Renumber

open Outcome

/-- What is wanted for the sources of a working set: destinations, which are those built
from the sources where none are built yet, and file states if they have been read. -/
structure Wishes where
  sources : List Path
  paths : RenameItems
  states : Option TouchItems

/-- What a working set holds, whatever of it is built. -/
def WorkingSet.wishes (set : WorkingSet) : Wishes :=
  ⟨set.sources, set.renameItems, set.touch⟩

namespace Command

/-- The changes of destinations that an edit makes. -/
def pathChanges : Command → List (Change Path)
  | redirect changes => changes
  | reset paths _ => paths
  | edit change => [change]
  | _ => []

/-- The changes of file states that an edit makes. -/
def stateChanges : Command → List (Change FileState)
  | restate changes => changes
  | reset _ states => states
  | _ => []

theorem pathChanges_inverse (c : Command) :
    c.inverse.pathChanges = c.pathChanges.map Change.inverse := by
  cases c <;> rfl

theorem stateChanges_inverse (c : Command) :
    c.inverse.stateChanges = c.stateChanges.map Change.inverse := by
  cases c <;> rfl

theorem isRecorded_inverse (c : Command) : c.inverse.isRecorded = c.isRecorded := by
  cases c <;> rfl

theorem unknownSource?_eq_none {α β : Type} {wish : Wish α β} {items : PathMap α}
    {changes : List (Change β)} (meets : items.Meets wish changes) :
    unknownSource? items changes = none := by
  rw [unknownSource?, Option.map_eq_none_iff, List.find?_eq_none]
  intro c member
  obtain ⟨a, found, -⟩ := meets c member
  obtain ⟨e, look, -⟩ := Option.map_eq_some_iff.1 found
  rw [look]
  exact Bool.false_ne_true

end Command

namespace Wishes

variable {a now mid before : Wishes} {c : Command} {set : WorkingSet} {w : World}

/-! ## The same wishes again -/

/-- The wishes are what they were. File states may have been read in between, but then
nothing else is wanted than what was read. -/
structure Restores (now before : Wishes) : Prop where
  sources : now.sources = before.sources
  paths : now.paths = before.paths
  known : ∀ items, before.states = some items → now.states = some items
  unread : before.states = none → ∀ items, now.states = some items → items.Untouched

theorem Restores.refl (a : Wishes) : Restores a a where
  sources := rfl
  paths := rfl
  known _ same := same
  unread none _ some := nomatch none.symm.trans some

theorem Restores.trans (later : Restores now mid) (sooner : Restores mid before) :
    Restores now before where
  sources := later.sources.trans sooner.sources
  paths := later.paths.trans sooner.paths
  known items same := later.known items (sooner.known items same)
  unread none items same := by
    cases between : mid.states with
    | none => exact later.unread between items same
    | some read =>
        have kept := later.known read between
        rw [same] at kept
        cases kept
        exact sooner.unread none items between

/-! ## Edits that can be made -/

/-- The edit tells for every source that it changes what is wanted, and changes none
twice. -/
structure Fits (a : Wishes) (c : Command) : Prop where
  edit : c.isRecorded = false
  paths_apart : Apart c.pathChanges
  paths : a.paths.Meets .path c.pathChanges
  states_apart : Apart c.stateChanges
  states : c.stateChanges ≠ [] →
    ∃ items : TouchItems, a.states = some items ∧ items.Meets .state c.stateChanges

/-- What is wanted after an edit. -/
def amended (a : Wishes) (c : Command) : Wishes where
  sources := a.sources
  paths := a.paths.amend .path c.pathChanges
  states := a.states.map (PathMap.amend .state · c.stateChanges)

theorem amended_of_no_states (a : Wishes) (none : c.stateChanges = []) :
    a.amended c = { a with paths := a.paths.amend .path c.pathChanges } := by
  rw [amended, none]
  cases a.states <;> simp

/-- The inverse of an edit can be made after it. -/
theorem Fits.inverse (fits : a.Fits c) : (a.amended c).Fits c.inverse where
  edit := c.isRecorded_inverse.trans fits.edit
  paths_apart := c.pathChanges_inverse ▸ fits.paths_apart.inverse
  paths := c.pathChanges_inverse ▸ fits.paths.inverse fits.paths_apart
  states_apart := c.stateChanges_inverse ▸ fits.states_apart.inverse
  states some_change := by
    rw [c.stateChanges_inverse] at some_change ⊢
    obtain ⟨items, read, meets⟩ := fits.states (mt List.map_eq_nil_iff.2 some_change)
    refine ⟨_, ?_, meets.inverse fits.states_apart⟩
    rw [amended, read, Option.map_some]

/-- It leads back to what was wanted before. -/
theorem Fits.amended_inverse (fits : a.Fits c) : (a.amended c).amended c.inverse = a := by
  have paths := fits.paths.amend_inverse
  have states : (a.amended c).states.map (PathMap.amend .state · c.inverse.stateChanges) = a.states := by
    rw [amended, c.stateChanges_inverse]
    by_cases none : c.stateChanges = []
    · rw [none]
      cases a.states <;> simp
    · obtain ⟨items, read, meets⟩ := fits.states none
      rw [read, Option.map_some, Option.map_some, meets.amend_inverse]
  rw [amended, states, c.pathChanges_inverse]
  obtain ⟨sources, items, read⟩ := a
  exact congrArg (Wishes.mk sources · read) paths

/-- An edit that can be made goes on to be possible while wishes are only looked at. -/
theorem Restores.fits (restores : Restores now before) (fits : before.Fits c) : now.Fits c where
  edit := fits.edit
  paths_apart := fits.paths_apart
  paths := by
    rw [restores.paths]
    exact fits.paths
  states_apart := fits.states_apart
  states some_change := by
    obtain ⟨items, read, meets⟩ := fits.states some_change
    exact ⟨items, restores.known items read, meets⟩

theorem Restores.amended (restores : Restores now before) (fits : before.Fits c) :
    Restores (now.amended c) (before.amended c) := by
  have paths : (now.amended c).paths = (before.amended c).paths :=
    congrArg (PathMap.amend .path · c.pathChanges) restores.paths
  by_cases none : c.stateChanges = []
  · rw [amended_of_no_states now none, amended_of_no_states before none] at *
    exact ⟨restores.sources, paths, restores.known, restores.unread⟩
  · obtain ⟨items, read, -⟩ := fits.states none
    have states : (now.amended c).states = (before.amended c).states := by
      rw [Wishes.amended, Wishes.amended, read, restores.known items read]
    refine ⟨restores.sources, paths, fun _ same => states.trans same, fun unread => ?_⟩
    rw [Wishes.amended, read] at unread
    cases unread

/-! ## Making edits -/

theorem run_applyPaths_of_meets {changes : List (Change Path)} (apart : Apart changes)
    (meets : set.renameItems.Meets .path changes) (w : World) :
    (Command.applyPaths changes).run.run ⟨w, some set⟩ =
      (.ok (), ⟨w, some { set with rename := some (set.renameItems.amend .path changes) }⟩) := by
  rw [Command.run_applyPaths_some, Command.unknownSource?_eq_none meets]
  dsimp only
  rw [PathMap.foldl_set _ apart]

theorem run_applyStates_of_meets {changes : List (Change FileState)} (apart : Apart changes)
    (states : changes ≠ [] → ∃ items : TouchItems, set.touch = some items ∧ items.Meets .state changes)
    (w : World) :
    (Command.applyStates changes).run.run ⟨w, some set⟩ =
      (.ok (), ⟨w, some { set with touch := set.touch.map (PathMap.amend .state · changes) }⟩) := by
  obtain ⟨sources, rename, touch⟩ := set
  rw [Command.run_applyStates_some]
  by_cases none : changes = []
  · rw [none]
    cases touch with
    | none => rfl
    | some items => simp
  · obtain ⟨items, read, meets⟩ := states none
    dsimp only at read
    subst read
    have looked : (WorkingSet.touchItems ⟨sources, rename, some items⟩).run.run w = (.ok items, w) := rfl
    rw [if_neg (mt List.isEmpty_iff.1 none), looked]
    dsimp only
    rw [Command.unknownSource?_eq_none meets]
    dsimp only
    rw [PathMap.foldl_want _ apart]
    rfl

/-- An edit that can be made is made, whatever the world is, and the world is left alone. -/
theorem Fits.execute (fits : set.wishes.Fits c) (w : World) :
    ∃ set', c.execute.run.run ⟨w, some set⟩ = (.ok (), ⟨w, some set'⟩) ∧
      set'.wishes = set.wishes.amended c := by
  have paths := run_applyPaths_of_meets fits.paths_apart fits.paths w
  cases c with
  | rename | touch => cases fits.edit
  | redirect | edit =>
      refine ⟨_, paths, ?_⟩
      rw [amended_of_no_states _ rfl]
      rfl
  | restate changes =>
      refine ⟨_, run_applyStates_of_meets fits.states_apart fits.states w, ?_⟩
      exact congrArg (Wishes.mk set.sources · _) (PathMap.amend_nil _ _).symm
  | reset changes states =>
      have paths : (Command.applyPaths changes).run.run ⟨w, some set⟩ = _ := paths
      let built : WorkingSet := { set with rename := some (set.renameItems.amend .path changes) }
      have read : states ≠ [] →
          ∃ items : TouchItems, built.touch = some items ∧ items.Meets .state states := fits.states
      refine ⟨{ built with touch := set.touch.map (PathMap.amend .state · states) }, ?_, rfl⟩
      rw [Command.execute, run_bind, paths]
      exact run_applyStates_of_meets fits.states_apart read w

end Wishes

end Renumber
