import Mathlib.Data.List.Induction
import Renumber.Numbering.Basic
import Renumber.Proofs.Path.Map

/-!
# Where a numbering places files

A numbering goes through the sources in their order. Where destinations are kept apart, each
one has a key that none before it has, and where it keeps clear of other files, each one is
vacant or the place of a source. The map of destinations keeps the last one of every source,
under the spelling that came first.
-/

namespace Renumber

namespace PathMap

variable {α β : Type} {p : Path} {v : α}

/-! ## Maps of lists -/

/-- An entry of a map was there before, or is the new one, under this spelling or another. -/
theorem mem_place_new {entries : List (Path × α)} {e : Path × α}
    (member : e ∈ place (fun _ new => new) p v entries) :
    e ∈ entries ∨ p.same e.1 = true ∧ e.2 = v := by
  induction entries with
  | nil =>
      rw [place, List.mem_singleton] at member
      subst member
      exact .inr ⟨Path.same_refl p, rfl⟩
  | cons x rest ih =>
      obtain ⟨q, w⟩ := x
      rw [place] at member
      split at member
      · obtain rfl | old := List.mem_cons.1 member
        · exact .inr ⟨Path.same_refl p, rfl⟩
        · exact .inl old
      · next equal =>
        obtain rfl | old := List.mem_cons.1 member
        · exact .inr ⟨Path.same_iff.2 (Path.compare_eq_iff.1 equal), rfl⟩
        · exact .inl (List.mem_cons_of_mem _ old)
      · obtain rfl | later := List.mem_cons.1 member
        · exact .inl List.mem_cons_self
        · exact (ih later).imp_left (List.mem_cons_of_mem _)

theorem ofList_concat (l : List (Path × α)) (e : Path × α) :
    ofList (l ++ [e]) = (ofList l).insert e.1 e.2 := by
  rw [ofList, List.foldl_append]
  rfl

/-- Every entry of a list's map has the value of some entry of the list. -/
theorem mem_ofList {l : List (Path × α)} {e : Path × α} (member : e ∈ (ofList l).entries) :
    ∃ x ∈ l, x.1.same e.1 = true ∧ x.2 = e.2 := by
  induction l using List.reverseRecOn with
  | nil => cases member
  | append_singleton l x ih =>
      rw [ofList_concat] at member
      obtain old | ⟨same, value⟩ := mem_place_new member
      · obtain ⟨y, in_list, found⟩ := ih old
        exact ⟨y, List.mem_append_left _ in_list, found⟩
      · exact ⟨x, List.mem_append_right _ List.mem_cons_self, same, value.symm⟩

/-- A path is known to the map of a list by the spelling that it has first in the list. -/
theorem spelling_ofList (l : List (Path × α)) (q : Path) :
    ((ofList l).findItem? q).map Prod.fst = (l.map Prod.fst).find? fun p => p.same q := by
  induction l using List.reverseRecOn with
  | nil => exact congrArg (Option.map Prod.fst) (findItem?_empty q)
  | append_singleton l e ih =>
      rw [ofList_concat, insert, findItem?_insertWith, List.map_append, List.find?_append, ← ih,
        List.map_singleton, List.find?_singleton]
      cases same : e.1.same q with
      | false => rw [if_neg Bool.false_ne_true, if_neg Bool.false_ne_true, Option.or_none]
      | true =>
          rw [if_pos rfl, if_pos rfl, findItem?_congr _ same]
          cases (ofList l).findItem? q <;> rfl

theorem mem_keys_ofList {l : List (Path × α)} {q : Path}
    (member : q ∈ (ofList l).entries.map Prod.fst) : q ∈ l.map Prod.fst := by
  rw [mem_keys, spelling_ofList] at member
  exact List.mem_of_find?_eq_some member

/-- Every path of a list is in its map. -/
theorem findItem?_ofList {l : List (Path × α)} {x : Path × α} (member : x ∈ l) :
    ∃ e, (ofList l).findItem? x.1 = some e := by
  rw [← Option.isSome_iff_exists, ← Option.isSome_map, spelling_ofList, List.find?_isSome]
  exact ⟨x.1, List.mem_map_of_mem member, Path.same_refl x.1⟩

/-- The map of a list of different paths has the entries of the list. -/
theorem mem_ofList_iff {l : List (Path × α)} (distinct : (l.map fun e => e.1.components).Nodup)
    {e : Path × α} : e ∈ (ofList l).entries ↔ e ∈ l := by
  have old : ∀ {e}, e ∈ (ofList l).entries → e ∈ l := by
    intro e member
    obtain ⟨x, in_list, same, value⟩ := mem_ofList member
    obtain ⟨y, in_list', spelled⟩ := List.mem_map.1 (mem_keys_ofList (List.mem_map_of_mem member))
    have components : x.1.components = y.1.components := by rw [spelled, Path.same_iff.1 same]
    obtain rfl := List.inj_on_of_nodup_map distinct in_list in_list' components
    rwa [← Prod.ext spelled value]
  refine ⟨old, fun member => ?_⟩
  obtain ⟨x, found⟩ := findItem?_ofList member
  obtain ⟨there, same⟩ := mem_of_findItem? found
  have equal := List.inj_on_of_nodup_map distinct (old there) member (Path.same_iff.1 same)
  exact equal ▸ there

end PathMap

namespace Numbering

variable {g : Numbering} {present : Path → Bool} {sourceKeys placed : List PathKey}
  {source target : Path} {counter : Nat} {numbered out : Numbered} {sources : List Path}
  {pairs : List (Path × Path)}

/-! ## Placing one file -/

/-- The decorators in the order in which they are tried, none at first. -/
def decorators (g : Numbering) : List (Option Nat) :=
  none :: ((List.range (g.options.maxDuplicates - 1)).map (2 + ·)).map some

/-- A destination that is tried, if it is free. -/
def free? (g : Numbering) (present : Path → Bool) (sourceKeys placed : List PathKey) (source : Path)
    (counter : Nat) (d : Option Nat) : Option Path :=
  if g.collides present sourceKeys placed (g.candidate source counter d) then none
  else some (g.candidate source counter d)

theorem free?_eq_some {d : Option Nat} :
    g.free? present sourceKeys placed source counter d = some target ↔
      g.candidate source counter d = target ∧ g.collides present sourceKeys placed target = false := by
  rw [free?]
  split
  · next taken =>
    constructor
    · intro found
      cases found
    · rintro ⟨rfl, free⟩
      rw [taken] at free
      cases free
  · next free =>
    rw [Option.some.injEq]
    constructor
    · rintro rfl
      exact ⟨rfl, Bool.eq_false_iff.2 free⟩
    · exact And.left

theorem free?_eq_none {d : Option Nat} : g.free? present sourceKeys placed source counter d = none ↔
    g.collides present sourceKeys placed (g.candidate source counter d) = true := by
  rw [free?]
  split
  · next taken => exact iff_of_true rfl taken
  · next free => exact iff_of_false nofun free

theorem firstFree?_eq (free : Nat → Option Path) (tries n : Nat) :
    firstFree? free tries n = ((List.range tries).map (n + ·)).findSome? free := by
  induction tries generalizing n with
  | zero => rfl
  | succ tries ih =>
      have later : (List.range tries).map (n + 1 + ·) = (List.range tries).map ((n + ·) ∘ Nat.succ) :=
        List.map_congr_left fun i _ => by simp only [Function.comp_apply]; omega
      rw [firstFree?, List.range_succ_eq_map, List.map_cons, List.map_map, List.findSome?_cons, ih, later]
      cases free n <;> rfl

/-- Where destinations are kept apart, a file is placed at the first one that is free. There is
no place for it when none is, and the failure names the one without decorator. -/
theorem placeOne_eq (unique : g.options.unique = true) :
    g.placeOne present sourceKeys placed source counter =
      match g.decorators.findSome? (g.free? present sourceKeys placed source counter) with
      | some p => .ok p
      | none => .error (.noUniqueName (g.candidate source counter none) g.options.maxDuplicates) := by
  rw [decorators, List.findSome?_cons, List.findSome?_map, ← firstFree?_eq]
  cases first : g.free? present sourceKeys placed source counter none with
  | some p =>
      have done : g.placeOne present sourceKeys placed source counter =
          .ok (g.candidate source counter none) :=
        if_pos (Bool.or_eq_true_iff.2 (.inr (Option.isSome_of_eq_some first)))
      rw [done, (free?_eq_some.1 first).1]
  | none =>
      have taken : ¬(!g.options.unique ||
          (g.free? present sourceKeys placed source counter none).isSome) = true := by
        rw [unique, first]
        exact Bool.false_ne_true
      refine (if_neg taken).trans ?_
      generalize more : firstFree? (g.free? present sourceKeys placed source counter ∘ some)
        (g.options.maxDuplicates - 1) 2 = found
      split
      · next p free =>
        obtain rfl : found = some p := more.symm.trans free
        rfl
      · next none_free =>
        obtain rfl : found = none := more.symm.trans none_free
        rfl

/-- Where destinations are not kept apart, a file is placed at the one without decorator. -/
theorem placeOne_unkept (unkept : g.options.unique = false) :
    g.placeOne present sourceKeys placed source counter = .ok (g.candidate source counter none) :=
  if_pos (by rw [unkept]; rfl)

theorem placeOne_eq_ok (unique : g.options.unique = true) :
    g.placeOne present sourceKeys placed source counter = .ok target ↔
      g.decorators.findSome? (g.free? present sourceKeys placed source counter) = some target := by
  rw [placeOne_eq unique]
  cases g.decorators.findSome? (g.free? present sourceKeys placed source counter) with
  | some p => rw [Except.ok.injEq, Option.some.injEq]
  | none => exact iff_of_false nofun nofun

/-- Where destinations are kept apart, a file is placed at a free one. -/
theorem placeOne_ok (unique : g.options.unique = true)
    (done : g.placeOne present sourceKeys placed source counter = .ok target) :
    (∃ d ∈ g.decorators, g.candidate source counter d = target) ∧
      g.collides present sourceKeys placed target = false := by
  obtain ⟨d, tried, found⟩ := List.exists_of_findSome?_eq_some ((placeOne_eq_ok unique).1 done)
  obtain ⟨made, free⟩ := free?_eq_some.1 found
  exact ⟨⟨d, tried, made⟩, free⟩

/-! ## Placing all files -/

/-- Sources are placed one after the other, each at the destination that it is paired with. -/
inductive Places (g : Numbering) (present : Path → Bool) (sourceKeys : List PathKey) :
    List PathKey → Nat → List (Path × Path) → Prop
  | nil {placed : List PathKey} {counter : Nat} : Places g present sourceKeys placed counter []
  | cons {placed : List PathKey} {counter : Nat} {source target : Path} {rest : List (Path × Path)}
      (first : g.placeOne present sourceKeys placed source counter = .ok target)
      (others : Places g present sourceKeys (g.key target :: placed) (nextCounter counter) rest) :
      Places g present sourceKeys placed counter ((source, target) :: rest)

theorem places_of_numberFrom
    (done : g.numberFrom present sourceKeys placed counter out sources = .ok numbered) :
    ∃ pairs, g.Places present sourceKeys placed counter pairs ∧ pairs.map Prod.fst = sources ∧
      numbered.pairs = pairs.foldl (fun m e => m.insert e.1 e.2) out.pairs := by
  induction sources generalizing placed counter out with
  | nil =>
      rw [numberFrom] at done
      cases done
      exact ⟨[], .nil, rfl, rfl⟩
  | cons source rest ih =>
      rw [numberFrom] at done
      cases one : g.placeOne present sourceKeys placed source counter with
      | error failure =>
          rw [one] at done
          cases done
      | ok target =>
          rw [one] at done
          obtain ⟨pairs, places, sources, all⟩ := ih done
          exact ⟨(source, target) :: pairs, .cons one places, congrArg (source :: ·) sources, all⟩

/-- A batch that is numbered is placed. -/
theorem places_of_number (made : g.number present sources = .ok numbered) :
    ∃ pairs, g.Places present (sources.map g.key) [] g.options.start pairs ∧
      pairs.map Prod.fst = sources ∧ numbered.pairs = .ofList pairs :=
  places_of_numberFrom made

theorem Places.numberFrom (places : g.Places present sourceKeys placed counter pairs) (out : Numbered) :
    ∃ numbered, g.numberFrom present sourceKeys placed counter out (pairs.map Prod.fst) = .ok numbered ∧
      numbered.pairs = pairs.foldl (fun m e => m.insert e.1 e.2) out.pairs := by
  induction places generalizing out with
  | nil => exact ⟨_, rfl, rfl⟩
  | cons first others ih =>
      rw [List.map_cons, Numbering.numberFrom, first]
      exact ih _

/-- A batch that can be placed is numbered. -/
theorem Places.number (places : g.Places present ((pairs.map Prod.fst).map g.key) [] g.options.start pairs) :
    ∃ numbered, g.number present (pairs.map Prod.fst) = .ok numbered ∧ numbered.pairs = .ofList pairs :=
  places.numberFrom _

/-- No two of these pairs have destinations with one key, none has one of the keys that were
placed before, and every destination is vacant or the place of a source. -/
structure Apart (g : Numbering) (present : Path → Bool) (sourceKeys placed : List PathKey)
    (pairs : List (Path × Path)) : Prop where
  new : ∀ e ∈ pairs, g.key e.2 ∉ placed
  distinct : (pairs.map fun e => g.key e.2).Nodup
  clear : ∀ e ∈ pairs, g.key e.2 ∈ sourceKeys ∨ present e.2 = false

/-- Sources are placed at destinations that are apart. -/
theorem Places.apart (unique : g.options.unique = true) (checks : g.options.checkExisting = true)
    (places : g.Places present sourceKeys placed counter pairs) : g.Apart present sourceKeys placed pairs := by
  induction places with
  | nil => exact ⟨nofun, .nil, nofun⟩
  | @cons placed counter source target rest first others ih =>
      obtain ⟨-, free⟩ := placeOne_ok unique first
      rw [collides, isForeign, checks, Bool.or_eq_false_iff] at free
      obtain ⟨new, clear⟩ := free
      refine ⟨?_, ?_, ?_⟩
      · refine List.forall_mem_cons.2 ⟨?_, fun e member => ?_⟩
        · simpa using new
        · exact fun before => ih.new e member (List.mem_cons_of_mem _ before)
      · refine List.nodup_cons.2 ⟨?_, ih.distinct⟩
        intro again
        obtain ⟨e, member, same⟩ := List.mem_map.1 again
        exact ih.new e member (same ▸ List.mem_cons_self)
      · refine List.forall_mem_cons.2 ⟨?_, ih.clear⟩
        by_cases own : g.key target ∈ sourceKeys
        · exact .inl own
        · right
          simpa [own] using clear

/-- A batch is numbered with destinations that are apart. -/
theorem number_ok (unique : g.options.unique = true) (checks : g.options.checkExisting = true)
    (made : g.number present sources = .ok numbered) :
    ∃ pairs : List (Path × Path), pairs.map Prod.fst = sources ∧ numbered.pairs = .ofList pairs ∧
      g.Apart present (sources.map g.key) [] pairs := by
  obtain ⟨pairs, places, sources, all⟩ := places_of_number made
  exact ⟨pairs, sources, all, places.apart unique checks⟩

end Numbering

end Renumber
