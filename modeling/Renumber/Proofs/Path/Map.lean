import Mathlib.Data.List.Nodup
import Renumber.Path.Map

/-!
# Looking up paths in maps

A map is sorted, so at most one of its entries is found at a path, whatever the spelling, and
halving does not miss it. An insertion changes what is found at its own path and nothing else, and
so does setting a value. In a map made from a list the first entry of each path is found.
-/

namespace Renumber

namespace Path

theorem same_refl (p : Path) : p.same p = true := same_iff.2 rfl

theorem same_comm (p q : Path) : p.same q = q.same p := by
  rw [Bool.eq_iff_iff, same_iff, same_iff, eq_comm]

theorem same_congr {p q : Path} (h : p.same q = true) (r : Path) : r.same p = r.same q := by
  rw [Bool.eq_iff_iff, same_iff, same_iff, same_iff.1 h]

theorem same_congr_left {p q : Path} (h : p.same q = true) (r : Path) : p.same r = q.same r := by
  rw [same_comm p, same_comm q, same_congr h]

theorem compare_lt_irrefl {p q : Path} (h : compare p q = .lt) : p.same q = false := by
  rw [Bool.eq_false_iff]
  intro same
  rw [compare_eq_iff.2 (same_iff.1 same)] at h
  cases h

theorem compare_congr {p q : Path} (h : p.same q = true) (r : Path) : compare r p = compare r q :=
  Std.TransCmp.congr_right (compare_eq_iff.2 (same_iff.1 h))

end Path

namespace PathMap

variable {α β : Type} {merge : α → α → α}

/-- A map is its entries. -/
@[ext] theorem ext_entries {m m' : PathMap α} (entries : m.entries = m'.entries) : m = m' := by
  obtain ⟨_, _⟩ := m
  obtain ⟨_, _⟩ := m'
  cases entries
  rfl

/-! ## Halving -/

section Halving

variable {entries : List (Path × α)} {p : Path} {low high i j : Nat} {e x : Path × α}

theorem compare_of_index_lt (sorted : entries.Pairwise fun a b => compare a.1 b.1 = .lt)
    (at_i : entries[i]? = some e) (at_j : entries[j]? = some x) (less : i < j) :
    compare e.1 x.1 = .lt := by
  obtain ⟨i_lt, rfl⟩ := List.getElem?_eq_some_iff.1 at_i
  obtain ⟨j_lt, rfl⟩ := List.getElem?_eq_some_iff.1 at_j
  exact List.pairwise_iff_getElem.1 sorted i j i_lt j_lt less

/-- Sorted entries come in the order of their paths. -/
theorem index_lt_of_compare (sorted : entries.Pairwise fun a b => compare a.1 b.1 = .lt)
    (at_i : entries[i]? = some e) (at_j : entries[j]? = some x) (before : compare e.1 x.1 = .lt) :
    i < j := by
  rcases Nat.lt_trichotomy i j with less | rfl | greater
  · exact less
  · obtain rfl := Option.some.inj (at_i.symm.trans at_j)
    rw [Path.compare_eq_iff.2 rfl] at before
    cases before
  · exact absurd before (Std.OrientedCmp.not_lt_of_lt (compare_of_index_lt sorted at_j at_i greater))

/-- Sorted entries have different paths. -/
theorem index_eq_of_same (sorted : entries.Pairwise fun a b => compare a.1 b.1 = .lt)
    (at_i : entries[i]? = some e) (at_j : entries[j]? = some x) (same : e.1.same x.1 = true) :
    i = j := by
  rcases Nat.lt_trichotomy i j with less | equal | greater
  · rw [Path.compare_lt_irrefl (compare_of_index_lt sorted at_i at_j less)] at same
    cases same
  · exact equal
  · rw [Path.same_comm, Path.compare_lt_irrefl (compare_of_index_lt sorted at_j at_i greater)] at same
    cases same

/-- What halving ends at is an entry of the path. -/
theorem same_of_bisect (found : bisect entries p low high = some i) :
    ∃ e, entries[i]? = some e ∧ e.1.same p = true := by
  fun_induction bisect entries p low high with
  | case1 | case5 => cases found
  | case2 low high _ middle x at_middle before ih => exact ih found
  | case3 low high _ middle x at_middle equal =>
      obtain rfl := Option.some.inj found
      exact ⟨x, at_middle, Path.same_iff.2 (Path.compare_eq_iff.1 equal)⟩
  | case4 low high _ middle x at_middle after ih => exact ih found

/-- Halving sorted entries does not miss an entry of the path. -/
theorem bisect_of_same (sorted : entries.Pairwise fun a b => compare a.1 b.1 = .lt)
    (at_i : entries[i]? = some e) (same : e.1.same p = true) (above : low ≤ i) (below : i < high)
    (inside : high ≤ entries.length) : bisect entries p low high = some i := by
  -- Each half that is left still has the entry: paths in order are indices in order.
  fun_induction bisect entries p low high with
  | case1 low high _ middle beyond =>
      rw [List.getElem?_eq_none_iff] at beyond
      omega
  | case2 low high _ middle x at_middle before ih =>
      rw [← Path.compare_congr same] at before
      exact ih (index_lt_of_compare sorted at_middle at_i before) below inside
  | case3 low high _ middle x at_middle equal =>
      have same_x : e.1.same x.1 = true :=
        (Path.same_congr (Path.same_iff.2 (Path.compare_eq_iff.1 equal)) e.1).trans same
      rw [index_eq_of_same sorted at_i at_middle same_x]
  | case4 low high _ middle x at_middle after ih =>
      rw [← Path.compare_congr same, Std.OrientedCmp.gt_iff_lt] at after
      exact ih above (index_lt_of_compare sorted at_i at_middle after) (by omega)
  | case5 low high none_left => omega

/-- The index of a path is that of its entry. -/
theorem position?_eq_some {m : PathMap α} :
    m.position? p = some i ↔ ∃ e, m.entries[i]? = some e ∧ e.1.same p = true := by
  constructor
  · exact same_of_bisect
  · rintro ⟨e, at_i, same⟩
    obtain ⟨inside, -⟩ := List.getElem?_eq_some_iff.1 at_i
    exact bisect_of_same m.sorted at_i same (Nat.zero_le i) inside (Nat.le_refl _)

/-- What is found at a path is the entry that has it. -/
theorem findItem?_eq_some {m : PathMap α} {q : Path} :
    m.findItem? q = some e ↔ e ∈ m.entries ∧ e.1.same q = true := by
  rw [findItem?, Option.bind_eq_some_iff]
  constructor
  · rintro ⟨i, position, at_i⟩
    obtain ⟨x, at_i', same⟩ := position?_eq_some.1 position
    obtain rfl := Option.some.inj (at_i'.symm.trans at_i)
    exact ⟨List.mem_of_getElem? at_i, same⟩
  · rintro ⟨member, same⟩
    obtain ⟨i, at_i⟩ := List.getElem?_of_mem member
    exact ⟨i, position?_eq_some.2 ⟨e, at_i, same⟩, at_i⟩

/-- Halving finds what going through all entries does. -/
theorem findItem?_eq_find? (m : PathMap α) (q : Path) :
    m.findItem? q = m.entries.find? fun e => e.1.same q := by
  cases look : m.entries.find? fun e => e.1.same q with
  | some e =>
      exact findItem?_eq_some.2 ⟨List.mem_of_find?_eq_some look,
        List.find?_some (p := fun e : Path × α => e.1.same q) look⟩
  | none =>
      rw [Option.eq_none_iff_forall_ne_some]
      intro e found
      obtain ⟨member, same⟩ := findItem?_eq_some.1 found
      exact List.find?_eq_none.1 look e member same

end Halving

/-- Nothing is found at a path that comes before all entries. -/
theorem find?_eq_none_of_lt {p : Path} {entries : List (Path × α)}
    (before : ∀ e ∈ entries, compare p e.1 = .lt) :
    (entries.find? fun e => e.1.same p) = none := by
  rw [List.find?_eq_none]
  intro e member
  rw [Path.same_comm, Path.compare_lt_irrefl (before e member)]
  simp

/-- What is found after an entry was put into a sorted list. -/
theorem find?_place (p : Path) (v : α) (q : Path) {entries : List (Path × α)}
    (sorted : entries.Pairwise fun a b => compare a.1 b.1 = .lt) :
    (place merge p v entries).find? (fun e => e.1.same q) =
      if p.same q then
        some (match entries.find? fun e => e.1.same p with
          | some e => (e.1, merge e.2 v)
          | none => (p, v))
      else entries.find? fun e => e.1.same q := by
  induction entries with
  | nil =>
      simp only [place, List.find?_cons, List.find?_nil]
      cases p.same q <;> rfl
  | cons e rest ih =>
      obtain ⟨r, w⟩ := e
      obtain ⟨after, sorted⟩ := List.pairwise_cons.1 sorted
      rw [place]
      split
      · next before =>
        have all_before : ∀ e ∈ (r, w) :: rest, compare p e.1 = .lt := by
          intro e member
          rcases List.mem_cons.1 member with rfl | member
          · exact before
          · exact Std.TransCmp.lt_trans before (after e member)
        rw [find?_eq_none_of_lt all_before, List.find?_cons]
        simp only
        cases p.same q <;> rfl
      · next equal =>
        have same : p.same r = true := Path.same_iff.2 (Path.compare_eq_iff.1 equal)
        rw [List.find?_cons, List.find?_cons, List.find?_cons]
        simp only [Path.same_comm r p, same]
        rw [← Path.same_congr_left same]
        cases p.same q <;> rfl
      · next later =>
        have other : r.same p = false :=
          Path.compare_lt_irrefl (Std.OrientedCmp.gt_iff_lt.1 later)
        rw [List.find?_cons, List.find?_cons, List.find?_cons]
        simp only [other]
        rw [ih sorted]
        cases at_r : r.same q with
        | false => rfl
        | true =>
            have : p.same q = false := by
              rw [← Path.same_congr at_r, Path.same_comm]
              exact other
            rw [this]
            rfl

/-- An insertion changes what is found at its own path only, and keeps the spelling. -/
theorem findItem?_insertWith (m : PathMap α) (p : Path) (v : α) (q : Path) :
    (m.insertWith merge p v).findItem? q =
      if p.same q then
        some (match m.findItem? p with
          | some e => (e.1, merge e.2 v)
          | none => (p, v))
      else m.findItem? q := by
  rw [findItem?_eq_find?, findItem?_eq_find?, findItem?_eq_find?]
  exact find?_place p v q m.sorted

/-- One spelling of a path finds what another does. -/
theorem findItem?_congr (m : PathMap α) {p q : Path} (same : p.same q = true) :
    m.findItem? p = m.findItem? q := by
  simp only [findItem?_eq_find?, Path.same_congr same]

theorem find?_insertWith (m : PathMap α) (p : Path) (v : α) (q : Path) :
    (m.insertWith merge p v).find? q =
      if p.same q then
        some (match m.find? q with
          | some w => merge w v
          | none => v)
      else m.find? q := by
  rw [find?, find?, findItem?_insertWith]
  split
  · next same =>
    rw [m.findItem?_congr same]
    cases m.findItem? q <;> rfl
  · rfl

@[simp] theorem findItem?_empty (q : Path) : (∅ : PathMap α).findItem? q = none :=
  findItem?_eq_find? ∅ q

@[simp] theorem find?_empty (q : Path) : (∅ : PathMap α).find? q = none := by
  rw [find?, findItem?_empty, Option.map_none]

/-- What is found is an entry, and no other entry has that path. -/
theorem mem_of_findItem? {m : PathMap α} {q : Path} {e : Path × α} (found : m.findItem? q = some e) :
    e ∈ m.entries ∧ e.1.same q = true :=
  findItem?_eq_some.1 found

/-- The paths of a map are all different. -/
theorem components_nodup (m : PathMap α) : (m.entries.map fun e => e.1.components).Nodup := by
  refine List.Pairwise.map _ (fun a b before => ?_) m.sorted
  intro equal
  rw [Path.compare_eq_iff.2 equal] at before
  cases before

/-- Every entry is found at its path. -/
theorem findItem?_of_mem {m : PathMap α} {e : Path × α} (member : e ∈ m.entries) :
    m.findItem? e.1 = some e :=
  findItem?_eq_some.2 ⟨member, Path.same_refl e.1⟩

/-! ## Values that change -/

/-- Change every value. -/
def mapValues (m : PathMap α) (f : Path → α → β) : PathMap β :=
  ⟨m.entries.map fun e => (e.1, f e.1 e.2), List.pairwise_map.2 m.sorted⟩

theorem findItem?_mapValues (m : PathMap α) (f : Path → α → β) (q : Path) :
    (m.mapValues f).findItem? q = (m.findItem? q).map fun e => (e.1, f e.1 e.2) := by
  rw [findItem?_eq_find?, findItem?_eq_find?]
  exact List.find?_map ..

/-- The value that is set is that of the one entry with the path. -/
theorem set_eq_mapValues (m : PathMap α) (p : Path) (v : α) :
    m.set p v = m.mapValues fun q old => if q.same p then v else old := by
  apply ext_entries
  rw [set]
  cases position : m.position? p with
  | none =>
      have other : ∀ e ∈ m.entries, e.1.same p ≠ true := by
        intro e member same
        obtain ⟨i, at_i⟩ := List.getElem?_of_mem member
        rw [position?_eq_some.2 ⟨e, at_i, same⟩] at position
        cases position
      refine (List.map_id _).symm.trans (List.map_congr_left fun e member => ?_)
      exact (congrArg (Prod.mk e.1) (if_neg (other e member))).symm
  | some i =>
      obtain ⟨e, at_i, same⟩ := position?_eq_some.1 position
      apply List.ext_getElem?
      intro j
      dsimp only [setAt, mapValues]
      rw [List.getElem?_modify, List.getElem?_map]
      cases at_j : m.entries[j]? with
      | none => rfl
      | some x =>
          by_cases index : i = j
          · subst index
            obtain rfl := Option.some.inj (at_i.symm.trans at_j)
            simp [same]
          · have other : x.1.same p = false := by
              rw [Bool.eq_false_iff]
              intro same'
              rw [position?_eq_some.2 ⟨x, at_j, same'⟩] at position
              exact index (Option.some.inj position).symm
            simp [index, other]

/-- A value that was set is found at every spelling of its path, and nowhere else. -/
theorem findItem?_set (m : PathMap α) (p : Path) (v : α) (q : Path) :
    (m.set p v).findItem? q =
      (m.findItem? q).map fun e => (e.1, if q.same p then v else e.2) := by
  rw [set_eq_mapValues, findItem?_mapValues]
  cases found : m.findItem? q with
  | none => rfl
  | some e => rw [Option.map_some, Option.map_some, Path.same_congr_left (mem_of_findItem? found).2]

/-- Setting a value changes one entry. -/
theorem entries_set {m : PathMap α} {p : Path} {before after : List (Path × α)} {e : Path × α}
    (split : m.entries = before ++ e :: after) (same : e.1.same p = true) (v : α) :
    (m.set p v).entries = before ++ (e.1, v) :: after := by
  have sorted := m.sorted
  rw [split, List.pairwise_append, List.pairwise_cons] at sorted
  obtain ⟨-, ⟨behind, -⟩, front⟩ := sorted
  have others : ∀ {entries : List (Path × α)}, (∀ x ∈ entries, x.1.same e.1 = false) →
      entries.map (fun x => (x.1, if x.1.same p then v else x.2)) = entries := by
    intro entries other
    refine (List.map_congr_left fun x member => ?_).trans (List.map_id _)
    rw [← Path.same_congr same, other x member]
    rfl
  have ahead : ∀ x ∈ before, x.1.same e.1 = false :=
    fun x member => Path.compare_lt_irrefl (front x member e List.mem_cons_self)
  have later : ∀ x ∈ after, x.1.same e.1 = false := fun x member =>
    (Path.same_comm x.1 e.1).trans (Path.compare_lt_irrefl (behind x member))
  rw [set_eq_mapValues, mapValues]
  dsimp only
  rw [split, List.map_append, List.map_cons, if_pos same, others ahead, others later]

/-! ## Maps of given entries -/

theorem find?_settle (e : Path × α) (entries : List (Path × α)) (q : Path) :
    (settle e entries).find? (fun e => e.1.same q) = (e :: entries).find? fun e => e.1.same q := by
  induction entries with
  | nil => rfl
  | cons x rest ih =>
      rw [settle]
      split
      · rfl
      · next after =>
        have apart : e.1.same q = true → x.1.same q = false := by
          intro at_e
          rw [Bool.eq_false_iff]
          intro at_x
          have equal : compare e.1 x.1 = .eq :=
            Path.compare_eq_iff.2 ((Path.same_iff.1 at_e).trans (Path.same_iff.1 at_x).symm)
          exact after (Ordering.isLE_of_eq_eq equal)
        rw [List.find?_cons, ih, List.find?_cons, List.find?_cons, List.find?_cons]
        cases at_e : e.1.same q with
        | false => rfl
        | true => rw [apart at_e]

/-- Which entry of a path is the first stays so when entries are put in order. -/
theorem find?_arrange (entries : List (Path × α)) (q : Path) :
    (arrange entries).find? (fun e => e.1.same q) = entries.find? fun e => e.1.same q := by
  induction entries with
  | nil => rfl
  | cons e rest ih =>
      rw [arrange, List.foldr_cons, ← arrange, find?_settle, List.find?_cons, ih, List.find?_cons]

theorem find?_thinFrom (first : Path × α) (rest : List (Path × α)) (q : Path) :
    (thinFrom first rest).find? (fun e => e.1.same q) =
      (first :: rest).find? fun e => e.1.same q := by
  induction rest generalizing first with
  | nil => rfl
  | cons e rest ih =>
      rw [thinFrom]
      split
      · next same =>
        rw [ih, List.find?_cons, List.find?_cons, List.find?_cons, Path.same_congr_left same]
        cases first.1.same q <;> rfl
      · rw [List.find?_cons, ih, List.find?_cons (a := first)]

/-- In a map made from a list the first entry of each path is found. -/
theorem findItem?_ofFirsts (entries : List (Path × α)) (q : Path) :
    (ofFirsts entries).findItem? q = entries.find? fun e => e.1.same q := by
  rw [findItem?_eq_find?, ← find?_arrange entries]
  dsimp only [ofFirsts]
  cases arrange entries with
  | nil => rfl
  | cons first rest => exact find?_thinFrom first rest q

theorem mem_of_mem_ofFirsts {entries : List (Path × α)} {e : Path × α}
    (member : e ∈ (ofFirsts entries).entries) : e ∈ entries := by
  have found := findItem?_of_mem member
  rw [findItem?_ofFirsts] at found
  exact List.mem_of_find?_eq_some found

/-- A path that is found is the path of an entry, in the map's spelling. -/
theorem mem_keys {m : PathMap α} {p : Path} :
    p ∈ m.entries.map Prod.fst ↔ (m.findItem? p).map Prod.fst = some p := by
  constructor
  · intro member
    obtain ⟨e, there, rfl⟩ := List.mem_map.1 member
    rw [findItem?_of_mem there, Option.map_some]
  · intro found
    obtain ⟨e, look, rfl⟩ := Option.map_eq_some_iff.1 found
    exact List.mem_map_of_mem (mem_of_findItem? look).1

/-- Maps that know the same paths in the same spellings have them in the same order. -/
theorem keys_eq_of_findItem? {m : PathMap α} {m' : PathMap β}
    (same : ∀ q, (m.findItem? q).map Prod.fst = (m'.findItem? q).map Prod.fst) :
    m.entries.map Prod.fst = m'.entries.map Prod.fst := by
  have sorted : ∀ {γ : Type} (n : PathMap γ),
      (n.entries.map Prod.fst).Pairwise fun p q => compare p q = .lt :=
    fun n => List.pairwise_map.2 n.sorted
  have nodup : ∀ {γ : Type} (n : PathMap γ), (n.entries.map Prod.fst).Nodup := fun n =>
    (sorted n).imp fun before equal => by
      rw [equal, Path.compare_eq_iff.2 rfl] at before
      cases before
  refine List.Perm.eq_of_pairwise ?_ (sorted m) (sorted m')
    ((List.perm_ext_iff_of_nodup (nodup m) (nodup m')).2 fun p => ?_)
  · intro p q _ _ before after
    exact absurd before (Std.OrientedCmp.not_lt_of_lt after)
  · rw [mem_keys, mem_keys, same]

end PathMap

end Renumber
