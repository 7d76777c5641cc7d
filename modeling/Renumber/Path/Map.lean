import Renumber.Path.Basic

/-!
# Maps from paths

A map keeps one value for each path, whatever its spelling, and is sorted by path. The
spelling that came first stays. Sortedness is part of the type, so that the list of
entries says everything about a map, and a path is found in it by halving.
-/

namespace Renumber

/-- The entries of a map, in the order of their paths. -/
structure PathMap (α : Type) where
  entries : List (Path × α)
  sorted : entries.Pairwise fun a b => compare a.1 b.1 = .lt

namespace PathMap

variable {α β : Type}

/-- The map without entries. -/
def empty : PathMap α :=
  ⟨[], .nil⟩

instance : EmptyCollection (PathMap α) :=
  ⟨empty⟩

instance : Inhabited (PathMap α) :=
  ⟨empty⟩

/-- Put an entry into a sorted list; `merge` decides between the old value and the new
one, and the old spelling of the path stays. -/
def place (merge : α → α → α) (p : Path) (v : α) : List (Path × α) → List (Path × α)
  | [] => [(p, v)]
  | (q, w) :: rest =>
    match compare p q with
    | .lt => (p, v) :: (q, w) :: rest
    | .eq => (q, merge w v) :: rest
    | .gt => (q, w) :: place merge p v rest

theorem forall_mem_place {merge : α → α → α} {p : Path} {v : α} {q : Path}
    {entries : List (Path × α)} (hp : compare q p = .lt)
    (h : ∀ e ∈ entries, compare q e.1 = .lt) :
    ∀ e ∈ place merge p v entries, compare q e.1 = .lt := by
  induction entries with
  | nil => simpa [place] using hp
  | cons e rest ih =>
    obtain ⟨r, w⟩ := e
    simp only [List.mem_cons, forall_eq_or_imp] at h
    simp only [place]
    split
    · simp only [List.mem_cons, forall_eq_or_imp]
      exact ⟨hp, h.1, h.2⟩
    · simp only [List.mem_cons, forall_eq_or_imp]
      exact ⟨h.1, h.2⟩
    · simp only [List.mem_cons, forall_eq_or_imp]
      exact ⟨h.1, ih h.2⟩

theorem sorted_place {merge : α → α → α} {p : Path} {v : α} {entries : List (Path × α)}
    (h : entries.Pairwise fun a b => compare a.1 b.1 = .lt) :
    (place merge p v entries).Pairwise fun a b => compare a.1 b.1 = .lt := by
  induction entries with
  | nil => simp [place]
  | cons e rest ih =>
    obtain ⟨q, w⟩ := e
    rw [List.pairwise_cons] at h
    simp only [place]
    split
    · next hpq =>
      refine List.pairwise_cons.2 ⟨?_, List.pairwise_cons.2 h⟩
      intro e he
      rcases List.mem_cons.1 he with rfl | he
      · exact hpq
      · exact Std.TransCmp.lt_trans hpq (h.1 e he)
    · exact List.pairwise_cons.2 ⟨h.1, h.2⟩
    · next hpq =>
      exact List.pairwise_cons.2
        ⟨forall_mem_place (Std.OrientedCmp.gt_iff_lt.1 hpq) h.1, ih h.2⟩

/-- Put an entry into a map, with `merge` for a path that is there already. -/
def insertWith (merge : α → α → α) (m : PathMap α) (p : Path) (v : α) : PathMap α :=
  ⟨place merge p v m.entries, sorted_place m.sorted⟩

/-- Put an entry into a map; the new value counts. -/
def insert (m : PathMap α) (p : Path) (v : α) : PathMap α :=
  m.insertWith (fun _ new => new) p v

/-- The map of a list of entries, where the last value of a path counts. -/
def ofList (entries : List (Path × α)) : PathMap α :=
  entries.foldl (fun m (p, v) => m.insert p v) ∅

/-- Put an entry into ordered ones, before the first that does not come before it. -/
def settle (e : Path × α) : List (Path × α) → List (Path × α)
  | [] => [e]
  | x :: rest => if (compare e.1 x.1).isLE then e :: x :: rest else x :: settle e rest

/-- Entries in the order of their paths; those of one path stay in the order given. -/
def arrange (entries : List (Path × α)) : List (Path × α) :=
  entries.foldr settle []

/-- Entries without those that have the path of the one before; `first` is in front. -/
def thinFrom (first : Path × α) : List (Path × α) → List (Path × α)
  | [] => [first]
  | e :: rest => if e.1.same first.1 then thinFrom first rest else first :: thinFrom e rest

/-- Entries without those that have the path of the one before. -/
def thin : List (Path × α) → List (Path × α)
  | [] => []
  | e :: rest => thinFrom e rest

theorem mem_settle {e x : Path × α} {entries : List (Path × α)} :
    x ∈ settle e entries ↔ x = e ∨ x ∈ entries := by
  induction entries with
  | nil => simp [settle]
  | cons y rest ih =>
    rw [settle]
    split
    · exact List.mem_cons
    · rw [List.mem_cons, ih, List.mem_cons, or_left_comm]

theorem ordered_settle {e : Path × α} {entries : List (Path × α)}
    (h : entries.Pairwise fun a b => (compare a.1 b.1).isLE) :
    (settle e entries).Pairwise fun a b => (compare a.1 b.1).isLE := by
  induction entries with
  | nil => simp [settle]
  | cons x rest ih =>
    obtain ⟨above, ordered⟩ := List.pairwise_cons.1 h
    rw [settle]
    split
    · next before =>
      refine List.pairwise_cons.2 ⟨List.forall_mem_cons.2 ⟨before, fun y member => ?_⟩, h⟩
      exact Std.TransCmp.isLE_trans before (above y member)
    · next after =>
      refine List.pairwise_cons.2 ⟨fun y member => ?_, ih ordered⟩
      obtain rfl | member := mem_settle.1 member
      · exact Ordering.isLE_of_eq_lt (Std.OrientedCmp.lt_of_not_isLE after)
      · exact above y member

theorem ordered_arrange (entries : List (Path × α)) :
    (arrange entries).Pairwise fun a b => (compare a.1 b.1).isLE := by
  induction entries with
  | nil => exact .nil
  | cons e rest ih => exact ordered_settle ih

theorem sorted_thinFrom {first : Path × α} {rest : List (Path × α)}
    (h : (first :: rest).Pairwise fun a b => (compare a.1 b.1).isLE) :
    (thinFrom first rest).Pairwise (fun a b => compare a.1 b.1 = .lt) ∧
      ∀ e ∈ thinFrom first rest, (compare first.1 e.1).isLE := by
  induction rest generalizing first with
  | nil => simp [thinFrom]
  | cons e rest ih =>
    obtain ⟨above, ordered⟩ := List.pairwise_cons.1 h
    obtain ⟨first_e, above⟩ := List.forall_mem_cons.1 above
    rw [thinFrom]
    split
    · exact ih (List.pairwise_cons.2 ⟨above, ordered.of_cons⟩)
    · next other =>
      obtain ⟨sorted, behind⟩ := ih ordered
      have before : compare first.1 e.1 = .lt := by
        obtain before | equal := Ordering.isLE_iff_eq_lt_or_eq_eq.1 first_e
        · exact before
        · exact absurd (Path.same_iff.2 (Path.compare_eq_iff.1 equal).symm) other
      refine ⟨List.pairwise_cons.2 ⟨fun x member => ?_, sorted⟩, List.forall_mem_cons.2 ⟨?_, ?_⟩⟩
      · exact Std.TransCmp.lt_of_lt_of_isLE before (behind x member)
      · simp
      · exact fun x member => Std.TransCmp.isLE_trans first_e (behind x member)

theorem sorted_thin {entries : List (Path × α)}
    (h : entries.Pairwise fun a b => (compare a.1 b.1).isLE) :
    (thin entries).Pairwise fun a b => compare a.1 b.1 = .lt := by
  cases entries with
  | nil => exact .nil
  | cons e rest => exact (sorted_thinFrom h).1

/-- The map of a list of entries, where the first value of a path counts. -/
def ofFirsts (entries : List (Path × α)) : PathMap α :=
  ⟨thin (arrange entries), sorted_thin (ordered_arrange entries)⟩

/-- The index of the entry of a path, from `low` on and below `high`, found by halving. -/
def bisect (entries : List (Path × α)) (p : Path) (low high : Nat) : Option Nat :=
  if low < high then
    let middle := low + (high - low) / 2
    match entries[middle]? with
    | none => none
    | some e =>
      match compare e.1 p with
      | .lt => bisect entries p (middle + 1) high
      | .eq => some middle
      | .gt => bisect entries p low middle
  else none
termination_by high - low

/-- The index of the entry of a path. -/
def position? (m : PathMap α) (p : Path) : Option Nat :=
  bisect m.entries p 0 m.entries.length

/-- The entry of a path, in the map's spelling. -/
def findItem? (m : PathMap α) (p : Path) : Option (Path × α) :=
  (m.position? p).bind fun i => m.entries[i]?

/-- The value of a path. -/
def find? (m : PathMap α) (p : Path) : Option α :=
  (m.findItem? p).map Prod.snd

/-- Entries keep their paths when one of them gets another value. -/
theorem keys_modify (entries : List (Path × α)) (i : Nat) (v : α) :
    (entries.modify i fun e => (e.1, v)).map Prod.fst = entries.map Prod.fst := by
  apply List.ext_getElem?
  intro j
  rw [List.getElem?_map, List.getElem?_map, List.getElem?_modify]
  cases entries[j]? with
  | none => rfl
  | some e => by_cases h : i = j <;> simp [h]

/-- Change the value at an index. -/
def setAt (m : PathMap α) (i : Nat) (v : α) : PathMap α :=
  ⟨m.entries.modify i fun e => (e.1, v), by
    rw [← List.pairwise_map (f := Prod.fst) (R := fun p q => compare p q = .lt), keys_modify]
    exact List.pairwise_map.2 m.sorted⟩

/-- Change the value of a path that is there. -/
def set (m : PathMap α) (p : Path) (v : α) : PathMap α :=
  match m.position? p with
  | some i => m.setAt i v
  | none => m

/-- The entries that a test accepts. -/
def filter (m : PathMap α) (keep : Path → α → Bool) : PathMap α :=
  ⟨m.entries.filter fun e => keep e.1 e.2, m.sorted.filter _⟩

/-- How many paths there are. -/
def size (m : PathMap α) : Nat :=
  m.entries.length

end PathMap

end Renumber
