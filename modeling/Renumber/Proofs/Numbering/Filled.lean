import Renumber.Numbering.Fill
import Renumber.Proofs.Numbering.Placed
import Renumber.Proofs.Outcome

/-!
# Numberings in working sets

A numbering has a destination for each source, under the spelling that the working set knows it
by, since the items of a working set are its different sources at all times. So when it is filled
in every wish is replaced, and what is wanted afterwards is what was numbered; and when it cannot
be made no wish was touched.
-/

namespace Renumber

namespace PathMap

variable {α : Type} {m m' : PathMap α} {p q : Path} {v : α}

/-! ## Setting values -/

/-- Maps with the same paths and values are the same. -/
theorem eq_of_find? (keys : m.entries.map Prod.fst = m'.entries.map Prod.fst)
    (values : ∀ e ∈ m'.entries, m.find? e.1 = some e.2) : m = m' := by
  refine ext_entries (List.ext_getElem ?_ fun i here here' => ?_)
  · simpa using congrArg List.length keys
  · have path : m.entries[i].1 = m'.entries[i].1 := by
      have at_i := List.getElem_of_eq keys (by simpa using here : i < (m.entries.map Prod.fst).length)
      rwa [List.getElem_map, List.getElem_map] at at_i
    have value := values _ (List.getElem_mem here')
    rw [← path, find?, findItem?_of_mem (List.getElem_mem here)] at value
    exact Prod.ext path (Option.some.inj value)

theorem keys_set (m : PathMap α) (p : Path) (v : α) :
    (m.set p v).entries.map Prod.fst = m.entries.map Prod.fst := by
  rw [set_eq_mapValues, mapValues, List.map_map]
  rfl

/-- A value that was set is found at every spelling of its path, and nowhere else. -/
theorem find?_set (m : PathMap α) (p : Path) (v : α) (q : Path) :
    (m.set p v).find? q = (m.find? q).map fun old => if q.same p then v else old := by
  rw [find?, find?, findItem?_set, Option.map_map, Option.map_map]
  rfl

/-- Set the values of entries one after another. -/
def setAll (m : PathMap α) (entries : List (Path × α)) : PathMap α :=
  entries.foldl (fun m e => m.set e.1 e.2) m

theorem keys_setAll (m : PathMap α) (entries : List (Path × α)) :
    (m.setAll entries).entries.map Prod.fst = m.entries.map Prod.fst := by
  induction entries generalizing m with
  | nil => rfl
  | cons e rest ih => exact (ih (m.set e.1 e.2)).trans (keys_set m e.1 e.2)

theorem find?_setAll_of_ne {entries : List (Path × α)} {q : Path}
    (others : ∀ e ∈ entries, q.same e.1 = false) (m : PathMap α) :
    (m.setAll entries).find? q = m.find? q := by
  induction entries generalizing m with
  | nil => rfl
  | cons e rest ih =>
      obtain ⟨other, others⟩ := List.forall_mem_cons.1 others
      refine (ih others (m.set e.1 e.2)).trans ?_
      rw [find?_set, other]
      cases m.find? q <;> rfl

/-- Where the paths of the entries are different, each gets its value if it is in the map. -/
theorem find?_setAll {entries : List (Path × α)}
    (sorted : entries.Pairwise fun a b => compare a.1 b.1 = .lt) {e : Path × α} (member : e ∈ entries)
    {m : PathMap α} (known : m.find? e.1 ≠ none) : (m.setAll entries).find? e.1 = some e.2 := by
  induction entries generalizing m with
  | nil => cases member
  | cons x rest ih =>
      obtain ⟨before, sorted⟩ := List.pairwise_cons.1 sorted
      obtain ⟨old, found⟩ := Option.ne_none_iff_exists'.1 known
      obtain rfl | later := List.mem_cons.1 member
      · have others : ∀ y ∈ rest, e.1.same y.1 = false :=
          fun y in_rest => Path.compare_lt_irrefl (before y in_rest)
        refine (find?_setAll_of_ne others (m.set e.1 e.2)).trans ?_
        rw [find?_set, found, Option.map_some, if_pos (Path.same_refl e.1)]
      · refine ih sorted later ?_
        rw [find?_set, found]
        exact Option.some_ne_none _

theorem find?_of_keys (keys : m.entries.map Prod.fst = m'.entries.map Prod.fst) {e : Path × α}
    (member : e ∈ m'.entries) : m.find? e.1 ≠ none := by
  have path : e.1 ∈ m.entries.map Prod.fst := keys ▸ List.mem_map_of_mem member
  obtain ⟨x, there, same⟩ := List.mem_map.1 path
  rw [find?, ← same, findItem?_of_mem there, Option.map_some]
  exact Option.some_ne_none _

/-- All values of a map with the same paths are set. -/
theorem setAll_eq (keys : m.entries.map Prod.fst = m'.entries.map Prod.fst) : m.setAll m'.entries = m' :=
  eq_of_find? ((keys_setAll m m'.entries).trans keys) fun _ member =>
    find?_setAll m'.sorted member (find?_of_keys keys member)

end PathMap

open Outcome

/-! ## Filling -/

theorem RenameItems.run_setTarget {items : RenameItems} {source before : Path} (target : Path)
    (found : items.find? source = some before) :
    (RenameItems.setTarget source target).run.run items = (.ok before, items.set source target) := by
  rw [RenameItems.setTarget, run_bind, run_get]
  dsimp only
  rw [found]
  rfl

theorem RenameItems.run_setTarget_of_none {items : RenameItems} {source : Path}
    (unknown : items.find? source = none) (target : Path) :
    (RenameItems.setTarget source target).run.run items = (.error (.unknownItem source), items) := by
  rw [RenameItems.setTarget, run_bind, run_get]
  dsimp only
  rw [unknown]
  rfl

/-- Wishes that are written one after another are set one after another. -/
theorem WorkingSet.run_setAll {write : Path × Path → ExceptT Failure (StateM WorkingSet) Unit}
    (writes : ∀ (e : Path × Path) (set : WorkingSet) (items : RenameItems), set.rename = some items →
      items.find? e.1 ≠ none →
      (write e).run.run set = (.ok ⟨⟩, { set with rename := some (items.set e.1 e.2) }))
    {entries : List (Path × Path)} {set : WorkingSet} {items : RenameItems}
    (built : set.rename = some items) (known : ∀ e ∈ entries, items.find? e.1 ≠ none) :
    (entries.forM write).run.run set = (.ok ⟨⟩, { set with rename := some (items.setAll entries) }) := by
  induction entries generalizing set items with
  | nil =>
      obtain ⟨sources, rename, touch⟩ := set
      cases built
      rfl
  | cons e rest ih =>
      obtain ⟨own, others⟩ := List.forall_mem_cons.1 known
      rw [List.forM_eq_forM, List.forM_cons, run_bind, writes e set items built own]
      refine ih rfl fun e' member => ?_
      rw [PathMap.find?_set]
      exact mt Option.map_eq_none_iff.1 (others e' member)

/-! ## Working sets in use -/

/-- Every source is found among the items, under the spelling that it was given in first. -/
theorem RenameItems.findItem?_ofSources (sources : List Path) (p : Path) :
    ((RenameItems.ofSources sources).findItem? p).map Prod.fst = sources.find? (fun s => s.same p) := by
  rw [RenameItems.ofSources, PathMap.findItem?_ofFirsts, List.find?_map, Option.map_map]
  exact congrFun Option.map_id _

/-- A map of a list knows the paths that the items for its sources do. -/
theorem keys_ofSources {α : Type} (l : List (Path × α)) :
    (PathMap.ofList l).entries.map Prod.fst =
      (RenameItems.ofSources (l.map Prod.fst)).entries.map Prod.fst := by
  apply PathMap.keys_eq_of_findItem?
  intro q
  rw [RenameItems.findItem?_ofSources, PathMap.spelling_ofList]

namespace WorkingSet

variable {set : WorkingSet}

/-- The items of a set are those of its sources. -/
def Covered (set : WorkingSet) : Prop :=
  set.renameItems.entries.map Prod.fst = (RenameItems.ofSources set.sources).entries.map Prod.fst

/-- What becomes of working sets: they are made for sources, their items are built and get
destinations, states are read, and they follow their files. A set that is rebuilt is made anew. -/
inductive Reached : WorkingSet → Prop
  | made (sources : List Path) : Reached (ofSources sources)
  | built {set : WorkingSet} (before : Reached set) : Reached set.withRename
  | wished {set : WorkingSet} (before : Reached set) (source target : Path) :
      Reached { set with
        rename := some ((RenameItems.setTarget source target).run.run set.renameItems).2 }
  | read {set : WorkingSet} (before : Reached set) (touch : Option TouchItems) :
      Reached { set with touch }
  | followed {set : WorkingSet} (before : Reached set) (moves : List (Path × Path)) :
      Reached (set.followMoves moves)

/-- A wish does not change which items there are, whether its source is known or not. -/
theorem keys_setTarget (items : RenameItems) (source target : Path) :
    ((RenameItems.setTarget source target).run.run items).2.entries.map Prod.fst =
      items.entries.map Prod.fst := by
  cases found : items.find? source with
  | none => rw [RenameItems.run_setTarget_of_none found]
  | some before => rw [RenameItems.run_setTarget target found, PathMap.keys_set]

theorem Reached.covered (reached : set.Reached) : set.Covered := by
  induction reached with
  | made sources => rfl
  | built before covered => exact covered
  | wished before source target covered => exact (keys_setTarget _ source target).trans covered
  | read before touch covered => exact covered
  | followed before moves covered => rfl

/-- Wishes for any sources lead to a set that is reached. -/
theorem Reached.setAll {items : RenameItems} (reached : set.Reached) (now : set.renameItems = items)
    {entries : List (Path × Path)} (known : ∀ e ∈ entries, items.find? e.1 ≠ none) :
    Reached { set with rename := some (items.setAll entries) } := by
  induction entries generalizing set items with
  | nil => exact now ▸ reached.built
  | cons e rest ih =>
      obtain ⟨own, others⟩ := List.forall_mem_cons.1 known
      obtain ⟨before, found⟩ := Option.ne_none_iff_exists'.1 own
      have wished := reached.wished e.1 e.2
      rw [now, RenameItems.run_setTarget e.2 found] at wished
      refine @ih { set with rename := some (items.set e.1 e.2) } _ wished rfl fun e' member => ?_
      rw [PathMap.find?_set]
      exact mt Option.map_eq_none_iff.1 (others e' member)

/-- A source is found among the items, under the spelling that it was given in first. -/
theorem Covered.findItem? (covered : set.Covered) (p : Path) :
    (set.renameItems.findItem? p).map Prod.fst = set.sources.find? (fun s => s.same p) := by
  have keys : ∀ m : RenameItems, (m.findItem? p).map Prod.fst =
      (m.entries.map Prod.fst).find? fun q => q.same p := by
    intro m
    rw [PathMap.findItem?_eq_find?, List.find?_map]
    rfl
  rw [keys, covered, ← keys, RenameItems.findItem?_ofSources]

end WorkingSet

namespace Numbering

variable {g : Numbering} {present : Path → Bool} {ws ws' : WorkingSet} {numbered : Numbered} {failure : Failure}

/-- The items of a set are the sources of a batch that is numbered for it. -/
theorem keys_number (covered : ws.Covered) (made : g.number present ws.sources = .ok numbered) :
    ws.renameItems.entries.map Prod.fst = numbered.pairs.entries.map Prod.fst := by
  obtain ⟨pairs, -, sources, all⟩ := places_of_number made
  rw [covered, all, keys_ofSources, sources]

/-- A batch that cannot be numbered leaves the set alone; otherwise what is wanted is what was
numbered. -/
theorem run_fill (covered : ws.Covered) :
    (g.fill present).run.run ws =
      match g.number present ws.sources with
      | .ok numbered => (.ok numbered, { ws with rename := some numbered.pairs })
      | .error failure => (.error failure, ws) := by
  rw [fill, run_bind, run_get]
  dsimp only
  rw [run_bind, run_liftExcept]
  cases made : g.number present ws.sources with
  | error failure => rfl
  | ok numbered =>
      have keys := keys_number covered made
      have known : ∀ e ∈ numbered.pairs.entries, ws.renameItems.find? e.1 ≠ none :=
        fun e member => PathMap.find?_of_keys keys member
      dsimp only
      rw [run_bind, run_modify]
      dsimp only
      rw [run_bind, WorkingSet.run_setAll ?_ rfl known, PathMap.setAll_eq keys]
      · rfl
      · intro e ws items built known
        obtain ⟨before, found⟩ := Option.ne_none_iff_exists'.1 known
        have now : ws.renameItems = items := by
          rw [WorkingSet.renameItems, built]
          rfl
        rw [run_bind, run_get]
        dsimp only
        have wrote : (RenameItems.setTarget e.1 e.2).run items = (.ok before, items.set e.1 e.2) :=
          RenameItems.run_setTarget e.2 found
        rw [now, wrote]
        rfl

/-- What is wanted after a numbering was filled in is what was numbered. -/
theorem fill_ok (covered : ws.Covered) (filled : (g.fill present).run.run ws = (.ok numbered, ws')) :
    g.number present ws.sources = .ok numbered ∧ ws'.renameItems = numbered.pairs := by
  rw [run_fill covered] at filled
  split at filled
  · next numbered' made =>
    cases filled
    exact ⟨made, rfl⟩
  · cases filled

/-- A file is not placed only where its decorators run out. -/
theorem noUniqueName_of_placeOne {sourceKeys placed : List PathKey} {source : Path} {counter : Nat}
    (failed : g.placeOne present sourceKeys placed source counter = .error failure) :
    ∃ target, failure = .noUniqueName target g.options.maxDuplicates := by
  cases unique : g.options.unique with
  | false =>
      rw [placeOne_unkept unique] at failed
      cases failed
  | true =>
      rw [placeOne_eq unique] at failed
      split at failed
      · cases failed
      · cases failed
        exact ⟨_, rfl⟩

/-- A batch is not numbered only where the decorators of a file run out. -/
theorem noUniqueName_of_numberFrom {sourceKeys placed : List PathKey} {sources : List Path} {counter : Nat}
    {out : Numbered} (failed : g.numberFrom present sourceKeys placed counter out sources = .error failure) :
    ∃ target, failure = .noUniqueName target g.options.maxDuplicates := by
  induction sources generalizing placed counter out with
  | nil => cases failed
  | cons source rest ih =>
      rw [numberFrom] at failed
      cases one : g.placeOne present sourceKeys placed source counter with
      | error failure' =>
          rw [one] at failed
          cases failed
          exact noUniqueName_of_placeOne one
      | ok target =>
          rw [one] at failed
          exact ih failed

/-- A numbering is filled into a working set that is in use as a whole or not at all. Where it
fails, because the decorators of a file ran out, the set is as it was, its items not even built;
a source is never unknown. Otherwise all else is as it was, and what is wanted for every item is
the destination of its source. Each source has one item, under the spelling that it was given in
first, and there are no other items. -/
theorem fill_whole (reached : ws.Reached) (g : Numbering) (present : Path → Bool) :
    (∀ failure ws', (g.fill present).run.run ws = (.error failure, ws') →
      ws' = ws ∧ g.number present ws.sources = .error failure ∧ (∀ p, failure ≠ .unknownItem p) ∧
        ∃ target, failure = .noUniqueName target g.options.maxDuplicates) ∧
    (∀ numbered ws', (g.fill present).run.run ws = (.ok numbered, ws') →
      g.number present ws.sources = .ok numbered ∧
      ws' = { ws with rename := some ws'.renameItems } ∧ ws'.Reached ∧
      (∀ e ∈ ws'.renameItems.entries, numbered.pairs.find? e.1 = some e.2 ∧
        ws.sources.find? (fun s => s.same e.1) = some e.1) ∧
      ∀ source ∈ ws.sources, ∃! e, e ∈ ws'.renameItems.entries ∧ e.1.same source = true) := by
  have covered := reached.covered
  rw [run_fill covered]
  constructor
  · intro failure ws' failed
    split at failed
    · cases failed
    · next failure' unmade =>
      cases failed
      obtain ⟨target, rfl⟩ := noUniqueName_of_numberFrom unmade
      refine ⟨rfl, unmade, fun p => ?_, target, rfl⟩
      intro unknown
      cases unknown
  · intro numbered ws' filled
    split at filled
    · next numbered' made =>
      cases filled
      have keys := keys_number covered made
      have covered' : WorkingSet.Covered { ws with rename := some numbered.pairs } := keys.symm.trans covered
      refine ⟨made, rfl, ?_, fun e member => ⟨?_, ?_⟩, fun source given => ?_⟩
      · rw [← PathMap.setAll_eq keys]
        exact reached.setAll rfl fun e member => PathMap.find?_of_keys keys member
      · have item : numbered.pairs.findItem? e.1 = some e := PathMap.findItem?_of_mem member
        rw [PathMap.find?, item, Option.map_some]
      · rw [← covered'.findItem?, PathMap.findItem?_of_mem member, Option.map_some]
      · obtain ⟨first, found⟩ : ∃ first, ws.sources.find? (fun s => s.same source) = some first := by
          rw [← Option.isSome_iff_exists, List.find?_isSome]
          exact ⟨source, given, Path.same_refl source⟩
        rw [← covered'.findItem?] at found
        obtain ⟨e, item, -⟩ := Option.map_eq_some_iff.1 found
        refine ⟨e, PathMap.mem_of_findItem? item, fun e' other => ?_⟩
        obtain ⟨member, same⟩ := other
        have found' := PathMap.findItem?_of_mem member
        rw [PathMap.findItem?_congr _ same] at found'
        exact Option.some.inj (found'.symm.trans item)
    · cases filled

/-- A source that is given twice, in two spellings, and another one: a counter tells them apart,
but their first letter does not. -/
theorem fill_whole_respelled :
    let counted : Numbering := ⟨.parse ['r', '#'], {}, by decide +kernel⟩
    let lettered : Numbering := ⟨.parse ['r', '?'], { maxDuplicates := 1 }, by decide +kernel⟩
    let present : Path → Bool := fun _ => false
    let ws : WorkingSet := .ofSources [.ofString "/a/xa", .ofString "/a/./xa", .ofString "/a/xb"]
    (∃ numbered ws', (counted.fill present).run.run ws = (.ok numbered, ws') ∧
      ws'.renameItems.entries =
        [(.ofString "/a/xa", .ofString "/a/r2"), (.ofString "/a/xb", .ofString "/a/r3")] ∧
      ∃! e, e ∈ ws'.renameItems.entries ∧ e.1.same (.ofString "/a/./xa") = true) ∧
    ∃ failure, (lettered.fill present).run.run ws = (.error failure, ws) ∧
      failure ≠ .unknownItem (.ofString "/a/./xa") := by
  intro counted lettered present ws
  constructor
  · have known : ((counted.fill present).run.run ws).1.isOk = true ∧
        ((counted.fill present).run.run ws).2.renameItems.entries =
          [(.ofString "/a/xa", .ofString "/a/r2"), (.ofString "/a/xb", .ofString "/a/r3")] := by
      decide +kernel
    cases ran : (counted.fill present).run.run ws with
    | mk result ws' =>
        rw [ran] at known
        obtain ⟨succeeds, items⟩ := known
        cases result with
        | error failure => cases succeeds
        | ok numbered =>
            obtain ⟨-, -, -, -, one⟩ := (fill_whole (.made _) counted present).2 numbered ws' ran
            exact ⟨numbered, ws', rfl, items, one _ (List.mem_cons_of_mem _ List.mem_cons_self)⟩
  · have fails : ((lettered.fill present).run.run ws).1.isOk = false := by decide +kernel
    cases ran : (lettered.fill present).run.run ws with
    | mk result ws' =>
        cases result with
        | ok numbered =>
            rw [ran] at fails
            cases fails
        | error failure =>
            obtain ⟨rfl, -, no_unknown, -⟩ := (fill_whole (.made _) lettered present).1 failure ws' ran
            exact ⟨failure, rfl, no_unknown _⟩

end Numbering

end Renumber
