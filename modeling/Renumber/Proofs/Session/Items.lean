import Renumber.Proofs.Numbering.Filled
import Renumber.Proofs.Session.Amend

/-!
# Item sets

The items for chosen files are made once, from the files in the order given, and after that are
only written to. Writing replaces what is wanted and never a path, so the items stay in the order
in which halving finds them: at any time each file has one item, which is found by every spelling
of its path and holds what was wanted for it last.
-/

namespace Renumber

open Outcome

/-- Something is wanted for a source: by a request, which tells what was wanted before, or in place,
where the item was looked up. What is written in place may depend on what was there; the write tells
what it leaves. -/
structure ItemWrite (β : Type) where
  source : Path
  wanted : β
  inPlace : Bool

namespace ItemWrite

variable {β : Type}

/-- What was wanted last for a path, where it was `initial` before all writes. -/
def last (writes : List (ItemWrite β)) (p : Path) (initial : β) : β :=
  ((writes.reverse.find? fun w => p.same w.source).map wanted).getD initial

@[simp] theorem last_nil (p : Path) (initial : β) : last [] p initial = initial := rfl

theorem last_concat (writes : List (ItemWrite β)) (w : ItemWrite β) (p : Path) (initial : β) :
    last (writes ++ [w]) p initial =
      if p.same w.source then w.wanted else last writes p initial := by
  rw [last, List.reverse_concat, List.find?_cons]
  cases p.same w.source <;> rfl

end ItemWrite

/-- Destinations after a write. -/
def RenameItems.write (items : RenameItems) (w : ItemWrite Path) : RenameItems :=
  if w.inPlace then items.set w.source w.wanted
  else ((setTarget w.source w.wanted).run.run items).2

/-- File states after a write. -/
def TouchItems.write (items : TouchItems) (w : ItemWrite FileState) : TouchItems :=
  if w.inPlace then
    match items.find? w.source with
    | some item => items.set w.source { item with wanted := w.wanted }
    | none => items
  else ((setWanted w.source w.wanted).run.run items).2

namespace PathMap

variable {α β : Type} {wish : Wish α β} {given : List (Path × α)} {writes : List (ItemWrite β)}
  {m : PathMap α}

/-- The items that were given, of which only what is wanted was written since. -/
structure Faithful (wish : Wish α β) (given : List (Path × α)) (writes : List (ItemWrite β))
    (m : PathMap α) : Prop where
  /-- Items come in the order of their components. -/
  sorted : m.entries.Pairwise fun a b => compare a.1.components b.1.components = .lt
  /-- A path that was given has one item, however often it was given. -/
  one : ∀ g ∈ given, ∃! e, e ∈ m.entries ∧ e.1.components = g.1.components
  /-- There are no other items, and each has the spelling in which its path was given first. -/
  spelled : ∀ e ∈ m.entries, (given.find? fun g => g.1.same e.1).map Prod.fst = some e.1
  /-- Exactly the paths that were given are found. -/
  known : ∀ p, (m.find? p).isSome = true ↔ ∃ g ∈ given, g.1.components = p.components
  /-- What is found is what was given first, but for what was wanted last. -/
  found : ∀ p g, given.find? (fun g => g.1.same p) = some g →
    m.find? p = some (wish.put g.2 (ItemWrite.last writes p (wish.get g.2)))

/-- A request changes the item of its source and nothing else, and tells what was wanted before.
For a source that was not given it fails and changes nothing. -/
structure Answers (wish : Wish α β) (given : List (Path × α)) (m : PathMap α)
    (request : Path → β → Except Failure β × PathMap α) : Prop where
  known : ∀ source wanted before e after, m.entries = before ++ e :: after →
    e.1.components = source.components →
      (request source wanted).1 = .ok (wish.get e.2) ∧
        (request source wanted).2.entries = before ++ (e.1, wish.put e.2 wanted) :: after
  unknown : ∀ source wanted, (∀ g ∈ given, g.1.components ≠ source.components) →
    request source wanted = (.error (.unknownItem source), m)

/-! ## Writes -/

/-- A write changes what is found at its path, and there only what is wanted. -/
theorem findItem?_wantAt (wish : Wish α β) (m : PathMap α) (p : Path) (b : β) (q : Path) :
    (m.wantAt wish p b).findItem? q =
      (m.findItem? q).map fun e => (e.1, if q.same p then wish.put e.2 b else e.2) := by
  rw [wantAt_eq_mapValues, findItem?_mapValues]
  cases found : m.findItem? q with
  | none => rfl
  | some e => rw [Option.map_some, Option.map_some, Path.same_congr_left (mem_of_findItem? found).2]

/-- After writes in order, what is found is what was given first, but for what was wanted last. -/
theorem findItem?_foldl_wantAt (wish : Wish α β) (given : List (Path × α))
    (writes : List (ItemWrite β)) (q : Path) :
    (writes.foldl (fun m w => m.wantAt wish w.source w.wanted) (ofFirsts given)).findItem? q =
      (given.find? fun g => g.1.same q).map fun g =>
        (g.1, wish.put g.2 (ItemWrite.last writes q (wish.get g.2))) := by
  induction writes using List.reverseRecOn with
  | nil =>
      have as_given : (fun g : Path × α => (g.1, wish.put g.2 (wish.get g.2))) = id :=
        funext fun g => congrArg (Prod.mk g.1) (wish.put_get g.2)
      simp only [List.foldl_nil, findItem?_ofFirsts, ItemWrite.last_nil, as_given, Option.map_id, id]
  | append_singleton writes w ih =>
      rw [List.foldl_append, List.foldl_cons, List.foldl_nil, findItem?_wantAt, ih, Option.map_map]
      congr 1
      funext g
      rw [Function.comp_apply, ItemWrite.last_concat]
      cases q.same w.source with
      | false => rfl
      | true => exact congrArg (Prod.mk g.1) (wish.put_put ..)

/-- A map in which every path is found as it was given is faithful. -/
theorem Faithful.of_findItem? (finds : ∀ q, m.findItem? q = (given.find? fun g => g.1.same q).map
    fun g => (g.1, wish.put g.2 (ItemWrite.last writes q (wish.get g.2)))) :
    Faithful wish given writes m where
  sorted := m.sorted
  one g member := by
    obtain ⟨first, look⟩ : ∃ first, given.find? (fun x => x.1.same g.1) = some first := by
      rw [← Option.isSome_iff_exists, List.find?_isSome]
      exact ⟨g, member, Path.same_refl g.1⟩
    have item := finds g.1
    rw [look, Option.map_some, findItem?_eq_some] at item
    refine ⟨_, ⟨item.1, Path.same_iff.1 item.2⟩, fun e there => ?_⟩
    have found := findItem?_eq_some.2 ⟨there.1, Path.same_iff.2 there.2⟩
    rw [findItem?_eq_some.2 item] at found
    exact (Option.some.inj found).symm
  spelled e member := by
    have item := (finds e.1).symm.trans (findItem?_of_mem member)
    obtain ⟨g, look, same⟩ := Option.map_eq_some_iff.1 item
    rw [look, Option.map_some, ← same]
  known p := by
    rw [find?, finds, Option.isSome_map, Option.isSome_map, List.find?_isSome]
    exact exists_congr fun g => and_congr_right fun _ => Path.same_iff
  found p g look := by rw [find?, finds, look, Option.map_some, Option.map_some]

/-! ## Requests -/

/-- Where a request tells what was wanted and writes it if something is found, and otherwise fails,
it answers for the items of a faithful map. -/
theorem Faithful.answers (faithful : Faithful wish given writes m)
    {request : Path → β → Except Failure β × PathMap α}
    (asks : ∀ source wanted, request source wanted = match m.find? source with
      | some a => (.ok (wish.get a), m.set source (wish.put a wanted))
      | none => (.error (.unknownItem source), m)) :
    Answers wish given m request where
  known source wanted before e after split equal := by
    have same : e.1.same source = true := Path.same_iff.2 equal
    have there : e ∈ m.entries := split ▸ List.mem_append_right before List.mem_cons_self
    rw [asks, find?_eq_some.2 ⟨e, there, same, rfl⟩]
    exact ⟨rfl, entries_set split same _⟩
  unknown source wanted other := by
    have nothing : m.find? source = none := by
      rw [← Option.not_isSome_iff_eq_none, faithful.known]
      rintro ⟨g, member, equal⟩
      exact other g member equal
    rw [asks, nothing]

end PathMap

theorem RenameItems.write_eq (items : RenameItems) (w : ItemWrite Path) :
    items.write w = items.wantAt .path w.source w.wanted := by
  have requested : ((RenameItems.setTarget w.source w.wanted).run.run items).2 =
      items.wantAt .path w.source w.wanted := by
    rw [PathMap.wantAt]
    cases found : items.find? w.source with
    | none => rw [RenameItems.run_setTarget_of_none found]
    | some before =>
        rw [RenameItems.run_setTarget w.wanted found]
        rfl
  rw [RenameItems.write, requested, PathMap.set_eq_wantAt, ite_self]

theorem TouchItems.run_setWanted (items : TouchItems) (source : Path) (state : FileState) :
    (TouchItems.setWanted source state).run.run items = match items.find? source with
      | some item => (.ok item.wanted, items.set source { item with wanted := state })
      | none => (.error (.unknownItem source), items) := by
  rw [TouchItems.setWanted, run_bind, run_get]
  dsimp only
  cases items.find? source <;> rfl

theorem TouchItems.write_eq (items : TouchItems) (w : ItemWrite FileState) :
    items.write w = items.wantAt .state w.source w.wanted := by
  rw [TouchItems.write, TouchItems.run_setWanted, PathMap.wantAt]
  cases items.find? w.source with
  | none => exact ite_self _
  | some item => exact ite_self _

/-- Items are a map from the paths of the files that they were made for, after any writes. They are
in the order of components, one for each path, in the spelling that was given first, and a path is
found exactly if it was given in some spelling. What is found is what was wanted last, on request
or in place: an empty path before any write for destinations, and for file states the state that
was given first for the path, which also stays as the former one. A request changes the item of its
source only and tells what was wanted before; for a path that was not given it fails and nothing
changes. -/
theorem WorkingSet.items_faithful :
    (∀ (sources : List Path) (writes : List (ItemWrite Path)),
      let given := sources.map fun source => (source, Path.mk [])
      let items := writes.foldl RenameItems.write (.ofSources sources)
      PathMap.Faithful .path given writes items ∧
      PathMap.Answers .path given items
        fun source target => (RenameItems.setTarget source target).run.run items) ∧
    ∀ (states : List FileState) (writes : List (ItemWrite FileState)),
      let given := states.map fun state => (state.path, TouchItem.mk state state)
      let items := writes.foldl TouchItems.write (.ofStates states)
      PathMap.Faithful .state given writes items ∧
      PathMap.Answers .state given items
        fun source state => (TouchItems.setWanted source state).run.run items := by
  constructor
  · intro sources writes given items
    have run : items = writes.foldl (fun m w => m.wantAt .path w.source w.wanted) (.ofFirsts given) :=
      congrArg (writes.foldl · _) (funext₂ RenameItems.write_eq)
    have faithful : PathMap.Faithful .path given writes items :=
      .of_findItem? fun q => run ▸ PathMap.findItem?_foldl_wantAt .path given writes q
    refine ⟨faithful, faithful.answers fun source target => ?_⟩
    cases found : items.find? source with
    | none => exact RenameItems.run_setTarget_of_none found target
    | some before => exact RenameItems.run_setTarget target found
  · intro states writes given items
    have run : items = writes.foldl (fun m w => m.wantAt .state w.source w.wanted) (.ofFirsts given) :=
      congrArg (writes.foldl · _) (funext₂ TouchItems.write_eq)
    have faithful : PathMap.Faithful .state given writes items :=
      .of_findItem? fun q => run ▸ PathMap.findItem?_foldl_wantAt .state given writes q
    refine ⟨faithful, faithful.answers fun source state => ?_⟩
    rw [TouchItems.run_setWanted]
    cases items.find? source <;> rfl

/-- A file that is given in three spellings comes before the one whose name only begins like its
folder's, and is found by a fourth. -/
example :
    let items := RenameItems.ofSources
      [.ofString "/a-b", .ofString "/a//b", .ofString "/a/b/", .ofString "/a/./b"]
    (items.set (.ofString "/a/b") (.ofString "/c")).entries =
      [(.ofString "/a//b", .ofString "/c"), (.ofString "/a-b", ⟨[]⟩)] := by
  decide +kernel

end Renumber
