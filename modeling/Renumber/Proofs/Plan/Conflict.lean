import Mathlib.Data.List.Count
import Mathlib.Data.List.Induction
import Renumber.Plan.Basic
import Renumber.Proofs.Path.Map

/-!
# Plans without conflicts

A plan without conflicts sends every file to a destination of its own, and a destination
that no file of the batch leaves is vacant. Both are read off the groups of sources by
destination, in which every pair is found.
-/

namespace Renumber.Plan

variable {present : Path → Bool} {ci : Bool} {sourceKeys : List PathKey}
  {pairs : List (Path × Path)} {c : Conflict}

/-- At a destination are found the sources that go there, in order. -/
theorem find?_byTarget (ci : Bool) (pairs : List (Path × Path)) (q : Path) :
    (byTarget ci pairs).find? q =
      match pairs.filter fun m => (m.2.folded ci).same q with
      | [] => none
      | m :: more => some (m.2, (m :: more).map Prod.fst) := by
  induction pairs using List.reverseRecOn with
  | nil => exact PathMap.find?_empty q
  | append_singleton pairs m ih =>
      have last : byTarget ci (pairs ++ [m]) = (byTarget ci pairs).insertWith
          (fun old new => (old.1, old.2 ++ new.2)) (m.2.folded ci) (m.2, [m.1]) := by
        rw [byTarget, List.foldl_append]
        rfl
      rw [last, PathMap.find?_insertWith, ih, List.filter_append]
      by_cases same : (m.2.folded ci).same q = true
      · rw [if_pos same, List.filter_cons_of_pos (by exact same), List.filter_nil]
        cases pairs.filter fun m => (m.2.folded ci).same q with
        | nil => rfl
        | cons first more => simp
      · rw [if_neg same, List.filter_cons_of_neg (by exact same), List.filter_nil,
          List.append_nil]

/-- A group of sources is that of the first pair with a destination of this key. -/
theorem group_of_mem_byTarget {e : Path × Path × List Path} (member : e ∈ (byTarget ci pairs).entries) :
    ∃ m more, pairs.filter (fun n => n.2.key ci = m.2.key ci) = m :: more ∧
      e.2 = (m.2, (m :: more).map Prod.fst) ∧ e.1.components = m.2.key ci := by
  have group := find?_byTarget ci pairs e.1
  rw [PathMap.find?, PathMap.findItem?_of_mem member] at group
  cases all : pairs.filter fun m => (m.2.folded ci).same e.1 with
  | nil =>
      rw [all] at group
      cases group
  | cons m more =>
      rw [all] at group
      have here : (m.2.folded ci).same e.1 = true :=
        (List.mem_filter.1 (all.symm ▸ List.mem_cons_self :
          m ∈ pairs.filter fun m => (m.2.folded ci).same e.1)).2
      have key : m.2.key ci = e.1.components := Path.same_iff.1 here
      refine ⟨m, more, ?_, Option.some.inj group, key.symm⟩
      rw [← all, key]
      refine List.filter_congr fun n _ => ?_
      rw [Bool.eq_iff_iff, decide_eq_true_eq]
      exact Path.same_iff.symm

variable (ci) in
/-- Every destination has its group. -/
theorem exists_mem_byTarget {m : Path × Path} (member : m ∈ pairs) :
    ∃ e ∈ (byTarget ci pairs).entries, e.1.components = m.2.key ci := by
  have group := find?_byTarget ci pairs (m.2.folded ci)
  have listed : m ∈ pairs.filter fun n => (n.2.folded ci).same (m.2.folded ci) :=
    List.mem_filter.2 ⟨member, Path.same_refl _⟩
  generalize (pairs.filter fun n => (n.2.folded ci).same (m.2.folded ci)) = all at group listed
  cases all with
  | nil => cases listed
  | cons first more =>
      obtain ⟨e, found, -⟩ := Option.map_eq_some_iff.1 group
      obtain ⟨in_entries, same⟩ := PathMap.mem_of_findItem? found
      exact ⟨e, in_entries, Path.same_iff.1 same⟩

/-- A conflict is one at the group of some pair. -/
theorem mem_conflicts_iff_group : c ∈ conflicts present ci sourceKeys pairs ↔
    ∃ m more, pairs.filter (fun n => n.2.key ci = m.2.key ci) = m :: more ∧
      conflictAt? present ci sourceKeys m.2 ((m :: more).map Prod.fst) = some c := by
  rw [conflicts, List.mem_filterMap]
  constructor
  · rintro ⟨⟨p, at_p⟩, member, found⟩
    obtain ⟨m, more, all, rfl, -⟩ := group_of_mem_byTarget member
    exact ⟨m, more, all, found⟩
  · rintro ⟨m, more, all, found⟩
    have in_pairs : m ∈ pairs := List.mem_of_mem_filter (all ▸ List.mem_cons_self)
    obtain ⟨⟨p, at_p⟩, member, key⟩ := exists_mem_byTarget ci in_pairs
    obtain ⟨m', more', all', rfl, key'⟩ := group_of_mem_byTarget member
    rw [← key'.symm.trans key, all'] at all
    cases all
    exact ⟨_, member, found⟩

/-- Without conflicts every destination has one source, and is vacated or vacant. -/
theorem of_conflicts_eq_nil (none_found : conflicts present ci sourceKeys pairs = [])
    {m : Path × Path} (member : m ∈ pairs) :
    (pairs.filter fun n => n.2.key ci = m.2.key ci) = [m] ∧
      (m.2.key ci ∈ sourceKeys ∨ present m.2 = false) := by
  have in_group : m ∈ pairs.filter fun n => n.2.key ci = m.2.key ci := by simp [member]
  cases group : pairs.filter fun n => n.2.key ci = m.2.key ci with
  | nil =>
      rw [group] at in_group
      cases in_group
  | cons first more =>
      have in_all : first ∈ pairs.filter fun n => n.2.key ci = m.2.key ci :=
        group ▸ List.mem_cons_self
      have key : first.2.key ci = m.2.key ci := of_decide_eq_true (List.mem_filter.1 in_all).2
      have free : conflictAt? present ci sourceKeys first.2 ((first :: more).map Prod.fst) = none := by
        rw [Option.eq_none_iff_forall_ne_some]
        intro c found
        have listed := mem_conflicts_iff_group.2 ⟨first, more, key ▸ group, found⟩
        rw [none_found] at listed
        cases listed
      rw [group] at in_group
      simp only [conflictAt?] at free
      split at free
      · cases free
      next few =>
      split at free
      · cases free
      split at free
      · cases free
      next usable =>
      have alone : more = [] := by
        cases more with
        | nil => rfl
        | cons => simp at few
      subst alone
      rw [List.mem_singleton] at in_group
      subst in_group
      refine ⟨rfl, ?_⟩
      simpa [Classical.or_iff_not_imp_left] using usable

/-- Without conflicts no two destinations share a key. -/
theorem targetKeys_nodup (none_found : conflicts present ci sourceKeys pairs = []) :
    (pairs.map fun m => m.2.key ci).Nodup := by
  rw [List.nodup_iff_count_le_one]
  intro k
  by_cases member : k ∈ pairs.map fun m => m.2.key ci
  · obtain ⟨m, in_pairs, rfl⟩ := List.mem_map.1 member
    have alone := (of_conflicts_eq_nil none_found in_pairs).1
    rw [List.count, List.countP_map, List.countP_eq_length_filter]
    simp only [Function.comp_def, beq_eq_decide]
    rw [alone]
    simp
  · rw [List.count_eq_zero_of_not_mem member]
    omega

end Renumber.Plan
