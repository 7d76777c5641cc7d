import Renumber.Command
import Renumber.Proofs.Path.Map

/-!
# Changes of what is wanted

What is wanted for the sources is kept in maps, a destination by itself and a file state
beside the one that was read. Changes are made one after another, but where each has a
source of its own they may as well be made all at once. If each of them tells what was
wanted before, the inverse changes lead back.
-/

namespace Renumber

/-- Something that is wanted within a value: how it is read and how it is replaced. -/
structure Wish (α β : Type) where
  get : α → β
  put : α → β → α
  get_put : ∀ a b, get (put a b) = b
  put_get : ∀ a, put a (get a) = a
  put_put : ∀ a b b', put (put a b) b' = put a b'

namespace Wish

/-- A destination is wanted as it is. -/
def path : Wish Path Path where
  get p := p
  put _ p := p
  get_put _ _ := rfl
  put_get _ := rfl
  put_put _ _ _ := rfl

/-- A state is wanted beside the former one. -/
def state : Wish TouchItem FileState where
  get item := item.wanted
  put item wanted := { item with wanted }
  get_put _ _ := rfl
  put_get _ := rfl
  put_put _ _ _ := rfl

end Wish

/-- No two changes are about the same source. -/
def Apart {β : Type} (changes : List (Change β)) : Prop :=
  changes.Pairwise fun c d => c.source.same d.source = false

theorem Apart.inverse {β : Type} {changes : List (Change β)} (apart : Apart changes) :
    Apart (changes.map Change.inverse) :=
  List.Pairwise.map _ (fun _ _ other => other) apart

namespace PathMap

variable {α β : Type} {m : PathMap α} {wish : Wish α β} {changes : List (Change β)} {c : Change β}
  {q : Path}

/-! ## Maps whose values change -/

theorem mapValues_mapValues (m : PathMap α) (f g : Path → α → α) :
    (m.mapValues f).mapValues g = m.mapValues fun q a => g q (f q a) := by
  apply ext_entries
  exact List.map_map

theorem mapValues_congr {f g : Path → α → α} (same : ∀ e ∈ m.entries, f e.1 e.2 = g e.1 e.2) :
    m.mapValues f = m.mapValues g := by
  apply ext_entries
  apply List.map_congr_left
  intro e member
  rw [same e member]

theorem mapValues_id {f : Path → α → α} (same : ∀ e ∈ m.entries, f e.1 e.2 = e.2) :
    m.mapValues f = m := by
  rw [mapValues_congr (g := fun _ a => a) same]
  exact ext_entries (List.map_id _)

/-- What is found at a source is the value of the entry that has it as its path. -/
theorem find?_eq_some {a : α} : m.find? q = some a ↔ ∃ e ∈ m.entries, e.1.same q = true ∧ e.2 = a := by
  constructor
  · intro found
    obtain ⟨e, look, rfl⟩ := Option.map_eq_some_iff.1 found
    obtain ⟨member, same⟩ := mem_of_findItem? look
    exact ⟨e, member, same, rfl⟩
  · rintro ⟨e, member, same, rfl⟩
    rw [find?, ← m.findItem?_congr same, findItem?_of_mem member, Option.map_some]

/-! ## Changes all at once -/

/-- The change that is about a source. -/
def changeOf? (changes : List (Change β)) (q : Path) : Option (Change β) :=
  changes.find? fun c => q.same c.source

/-- Make all changes. -/
def amend (wish : Wish α β) (m : PathMap α) (changes : List (Change β)) : PathMap α :=
  m.mapValues fun q a => match changeOf? changes q with
    | some c => wish.put a c.after
    | none => a

/-- Every change is about a known source and tells what is wanted for it. -/
def Meets (wish : Wish α β) (m : PathMap α) (changes : List (Change β)) : Prop :=
  ∀ c ∈ changes, ∃ a, m.find? c.source = some a ∧ wish.get a = c.before

@[simp] theorem amend_nil (wish : Wish α β) (m : PathMap α) : m.amend wish [] = m :=
  mapValues_id fun _ _ => rfl

theorem same_of_changeOf? (found : changeOf? changes q = some c) : q.same c.source = true :=
  List.find?_some (p := fun c : Change β => q.same c.source) found

theorem mem_of_changeOf? (found : changeOf? changes q = some c) : c ∈ changes :=
  List.mem_of_find?_eq_some found

theorem changeOf?_of_mem (apart : Apart changes) (member : c ∈ changes) (same : q.same c.source = true) :
    changeOf? changes q = some c := by
  induction changes with
  | nil => cases member
  | cons d rest ih =>
      obtain ⟨others, apart⟩ := List.pairwise_cons.1 apart
      rw [changeOf?, List.find?_cons]
      obtain rfl | later := List.mem_cons.1 member
      · rw [same]
      · rw [Path.same_congr_left same, Path.same_comm, others c later]
        exact ih apart later

/-- A change and then changes of other sources are changes all at once. -/
theorem amend_cons (apart : Apart (c :: changes)) :
    m.amend wish (c :: changes) = (m.amend wish [c]).amend wish changes := by
  obtain ⟨others, -⟩ := List.pairwise_cons.1 apart
  rw [amend, amend, amend, mapValues_mapValues]
  apply mapValues_congr
  rintro ⟨q, a⟩ -
  simp only [changeOf?, List.find?_cons, List.find?_nil]
  cases same : q.same c.source with
  | false => rfl
  | true =>
      have none_later : changes.find? (fun d => q.same d.source) = none := by
        rw [List.find?_eq_none]
        intro d later
        rw [Path.same_congr_left same, others d later]
        exact Bool.false_ne_true
      simp only [none_later]

/-! ## One change after another -/

/-- The map with something wanted for a path, if that is there. -/
def wantAt (wish : Wish α β) (m : PathMap α) (p : Path) (b : β) : PathMap α :=
  match m.find? p with
  | some a => m.set p (wish.put a b)
  | none => m

theorem wantAt_eq_mapValues (wish : Wish α β) (m : PathMap α) (p : Path) (b : β) :
    m.wantAt wish p b = m.mapValues fun q a => if q.same p then wish.put a b else a := by
  have here : ∀ e ∈ m.entries, e.1.same p = true → m.find? p = some e.2 :=
    fun e member same => find?_eq_some.2 ⟨e, member, same, rfl⟩
  rw [wantAt]
  cases found : m.find? p with
  | none =>
      symm
      apply mapValues_id
      intro e member
      apply if_neg
      intro same
      rw [here e member same] at found
      cases found
  | some a =>
      dsimp only
      rw [set_eq_mapValues]
      apply mapValues_congr
      intro e member
      cases same : e.1.same p with
      | false => rfl
      | true =>
          rw [here e member same] at found
          cases found
          rfl

/-- One change is made. -/
theorem wantAt_eq_amend (wish : Wish α β) (m : PathMap α) (c : Change β) :
    m.wantAt wish c.source c.after = m.amend wish [c] := by
  rw [wantAt_eq_mapValues]
  apply mapValues_congr
  rintro ⟨q, a⟩ -
  simp only [changeOf?, List.find?_cons, List.find?_nil]
  cases q.same c.source <;> rfl

/-- Changes of different sources are made all at once. -/
theorem foldl_wantAt (wish : Wish α β) (m : PathMap α) {changes : List (Change β)}
    (apart : Apart changes) :
    changes.foldl (fun m c => m.wantAt wish c.source c.after) m = m.amend wish changes := by
  induction changes generalizing m with
  | nil => exact (amend_nil _ _).symm
  | cons c changes ih =>
      rw [List.foldl_cons, wantAt_eq_amend, amend_cons apart]
      exact ih _ (List.pairwise_cons.1 apart).2

theorem set_eq_wantAt (m : RenameItems) (p target : Path) : m.set p target = m.wantAt .path p target :=
  (set_eq_mapValues m p target).trans (wantAt_eq_mapValues .path m p target).symm

theorem foldl_set (m : RenameItems) {changes : List (Change Path)}
    (apart : Apart changes) :
    changes.foldl (fun items c => items.set c.source c.after) m = m.amend .path changes := by
  simp only [set_eq_wantAt]
  exact foldl_wantAt .path m apart

/-- The wanted states after one change, if its source is known. -/
def want (m : TouchItems) (c : Change FileState) : TouchItems :=
  match m.find? c.source with
  | some item => m.set c.source { item with wanted := c.after }
  | none => m

theorem want_eq_wantAt (m : TouchItems) (c : Change FileState) :
    want m c = m.wantAt .state c.source c.after := by
  rw [want, wantAt]
  cases m.find? c.source <;> rfl

theorem want_eq_amend (m : TouchItems) (c : Change FileState) : want m c = m.amend .state [c] :=
  (want_eq_wantAt m c).trans (wantAt_eq_amend .state m c)

theorem foldl_want (m : TouchItems) {changes : List (Change FileState)} (apart : Apart changes) :
    changes.foldl want m = m.amend .state changes :=
  (congrArg (changes.foldl · m) (funext₂ want_eq_wantAt)).trans (foldl_wantAt .state m apart)

/-! ## The way back -/

theorem changeOf?_inverse (changes : List (Change β)) (q : Path) :
    changeOf? (changes.map Change.inverse) q = (changeOf? changes q).map Change.inverse :=
  List.find?_map ..

/-- The inverse changes tell what is wanted after the changes. -/
theorem Meets.inverse (meets : m.Meets wish changes) (apart : Apart changes) :
    (m.amend wish changes).Meets wish (changes.map Change.inverse) := by
  rw [Meets, List.forall_mem_map]
  intro c member
  obtain ⟨a, found, -⟩ := meets c member
  obtain ⟨e, look, rfl⟩ := Option.map_eq_some_iff.1 found
  have change := changeOf?_of_mem apart member (mem_of_findItem? look).2
  refine ⟨wish.put e.2 c.after, ?_, wish.get_put _ _⟩
  have source : c.inverse.source = c.source := rfl
  rw [source, find?, amend, findItem?_mapValues, look]
  simp only [Option.map_some, change]

/-- The inverse changes lead back. -/
theorem Meets.amend_inverse (meets : m.Meets wish changes) :
    (m.amend wish changes).amend wish (changes.map Change.inverse) = m := by
  rw [amend, amend, mapValues_mapValues]
  apply mapValues_id
  intro e member
  simp only [changeOf?_inverse]
  cases change : changeOf? changes e.1 with
  | none => rfl
  | some c =>
      have same := same_of_changeOf? change
      obtain ⟨a, found, before⟩ := meets c (mem_of_changeOf? change)
      rw [find?_eq_some.2 ⟨e, member, same, rfl⟩] at found
      cases found
      simp only [Option.map_some]
      rw [wish.put_put]
      exact (congrArg _ before.symm).trans (wish.put_get e.2)

end PathMap

end Renumber
