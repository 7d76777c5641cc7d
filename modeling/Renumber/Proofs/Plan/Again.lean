import Renumber.Proofs.Plan.Correct

/-!
# Planning again

A plan is made before the log of a run is opened, and made again behind it. Opening a log may
put things on the disk, but none where the plan goes; then the second plan is the first one.
-/

namespace Renumber.Plan

variable {present present' : Path → Bool} {ci : Bool} {pairs : PathPairs} {plan : RenamePlan}

/-- A destination in a group of sources is that of a pair. -/
theorem target_of_mem_byTarget {pairs : List (Path × Path)} {e : Path × Path × List Path}
    (member : e ∈ (byTarget ci pairs).entries) : ∃ m ∈ pairs, m.2 = e.2.1 := by
  obtain ⟨m, more, all, group, -⟩ := group_of_mem_byTarget member
  exact ⟨m, List.mem_of_mem_filter (all ▸ List.mem_cons_self), congrArg Prod.fst group.symm⟩

/-- Only what is at the destinations matters for conflicts. -/
theorem conflicts_congr {sourceKeys : List PathKey} {pairs : List (Path × Path)}
    (same : ∀ m ∈ pairs, present' m.2 = present m.2) :
    conflicts present' ci sourceKeys pairs = conflicts present ci sourceKeys pairs := by
  refine List.filterMap_congr fun e member => ?_
  obtain ⟨m, in_pairs, target⟩ := target_of_mem_byTarget member
  simp only [conflictAt?, ← target, same m in_pairs]

/-- The name that was found free is found again when only names before it are taken besides. -/
theorem freeIntermediate?_congr {planned : List PathKey} {target aside : Path}
    (found : freeIntermediate? present ci planned target = some aside)
    (more : ∀ p, present p = true → present' p = true) (same : present' aside = present aside) :
    freeIntermediate? present' ci planned target = some aside := by
  rw [freeIntermediate?, List.find?_eq_some_iff_append] at found ⊢
  obtain ⟨free, before, after, all, taken⟩ := found
  refine ⟨by rw [same]; exact free, before, after, all, fun p member => ?_⟩
  have taken_p := taken p member
  simp only [Bool.not_eq_true', Bool.and_eq_false_iff, Bool.not_eq_false'] at taken_p ⊢
  exact taken_p.imp_right (more p)

/-- Steps are chosen again as they were. -/
theorem chooseSteps_congr {sourceKeys : List PathKey} {o : Occupancy} {pairs : List (Path × Path)}
    {steps delayed : List RenameStep}
    (chosen : chooseSteps present ci sourceKeys o pairs = .ok (steps, delayed))
    (more : ∀ p, present p = true → present' p = true)
    (same : ∀ s ∈ steps, present' s.target = present s.target) :
    chooseSteps present' ci sourceKeys o pairs = .ok (steps, delayed) := by
  induction pairs generalizing o steps delayed with
  | nil => exact chosen
  | cons m rest ih =>
      obtain ⟨source, target⟩ := m
      rw [chooseSteps] at chosen ⊢
      simp only at chosen ⊢
      split at chosen
      · next blocked =>
        rw [if_pos blocked]
        split at chosen
        · cases chosen
        · next aside found =>
          cases later : chooseSteps present ci sourceKeys
            ⟨aside.key ci :: o.planned, source.key ci :: o.vacated, aside.key ci :: o.filled⟩
            rest with
          | error failure =>
              rw [later] at chosen
              cases chosen
          | ok parts =>
              rw [later] at chosen
              cases chosen
              rw [freeIntermediate?_congr found more (same _ List.mem_cons_self)]
              simp only
              rw [ih later fun s member => same s (List.mem_cons_of_mem _ member)]
              rfl
      · next clear =>
        rw [if_neg clear]
        cases later : chooseSteps present ci sourceKeys
          ⟨o.planned, source.key ci :: o.vacated, target.key ci :: o.filled⟩ rest with
        | error failure =>
            rw [later] at chosen
            cases chosen
        | ok parts =>
            rw [later] at chosen
            cases chosen
            rw [ih later fun s member => same s (List.mem_cons_of_mem _ member)]
            rfl

/-- A plan is made again when more is there, but nothing more where it goes. -/
theorem strict_congr (planned : strict present ci pairs = .ok plan)
    (more : ∀ p, present p = true → present' p = true)
    (same : ∀ p ∈ plan.paths, present' p = present p) : strict present' ci pairs = .ok plan := by
  have at_targets : ∀ m ∈ changing pairs, present' m.2 = present m.2 :=
    fun m member => same _ (listed_of_strict planned member).2
  have none_found := (strict_eq_ok planned).1
  rw [strict, withConflicts] at planned ⊢
  simp only [conflicts_congr at_targets, none_found] at planned ⊢
  split at planned
  · cases planned
  cases chosen : chooseSteps present ci ((changing pairs).map fun m => m.1.key ci)
    ⟨((changing pairs).map fun m => m.1.key ci) ++
      (changing pairs).map fun m => m.2.key ci, [], []⟩ (changing pairs) with
  | error failure =>
      rw [chosen] at planned
      cases planned
  | ok parts =>
      rw [chosen] at planned
      cases planned
      rw [chooseSteps_congr chosen more fun s member =>
        same _ (RenamePlan.mem_paths (List.mem_append_left _ member)).2]
      rfl

end Renumber.Plan
