import Mathlib.Logic.Function.Basic
import Renumber.Proofs.Plan.Correct
import Renumber.Proofs.Plan.Refused

/-!
# The two phases of a plan

While steps are chosen it is noted which sources have left and what has been filled. None of
this is needed to say what the steps are: a file steps aside exactly when the source of a later
pair stands at its destination, and goes on from there in the order of the others. The notes on
what was filled never decide anything, because no two destinations share a key and no
intermediate name has the key of a destination.
-/

namespace Renumber.Plan

variable {present : Path → Bool} {ci : Bool} {sourceKeys : List PathKey}

/-- The source of a later pair is at the destination of a pair. -/
def awaits (ci : Bool) (pairs : List (Path × Path)) (m : Path × Path) : Bool :=
  m.2.key ci != m.1.key ci &&
    pairs.any fun n => compare m.1 n.1 == .lt && n.1.key ci == m.2.key ci

theorem awaits_iff {pairs : List (Path × Path)} {m : Path × Path} :
    awaits ci pairs m = true ↔ m.2.key ci ≠ m.1.key ci ∧
      ∃ n ∈ pairs, compare m.1 n.1 = .lt ∧ n.1.key ci = m.2.key ci := by
  simp [awaits]

/-- The first-phase step of a pair: to the destination, or aside if that is still awaited. -/
def firstStep (ci : Bool) (pairs : List (Path × Path)) (aside : Path × Path → Path)
    (m : Path × Path) : RenameStep :=
  if awaits ci pairs m then ⟨m.1, aside m, .staged⟩ else ⟨m.1, m.2, .direct⟩

/-- The step that brings a file from where it stepped aside to its destination. -/
def delayedStep (aside : Path × Path → Path) (m : Path × Path) : RenameStep :=
  ⟨aside m, m.2, .delayed⟩

/-- One first-phase step for each pair, and then one delayed step for each that stepped aside, all
in the order of the pairs. -/
def phases (ci : Bool) (aside : Path × Path → Path) (pairs : List (Path × Path)) : List RenameStep :=
  pairs.map (firstStep ci pairs aside) ++ (pairs.filter (awaits ci pairs)).map (delayedStep aside)

/-- The names for the pairs that step aside are all different, and nothing in the batch or on the
disk has one of them. -/
structure Asides (present : Path → Bool) (ci : Bool) (pairs : List (Path × Path))
    (aside : Path × Path → Path) : Prop where
  apart : ((pairs.filter (awaits ci pairs)).map fun m => (aside m).key ci).Nodup
  unplanned : ∀ m ∈ pairs, awaits ci pairs m = true → ∀ n ∈ pairs,
    (aside m).key ci ≠ n.1.key ci ∧ (aside m).key ci ≠ n.2.key ci
  absent : ∀ m ∈ pairs, awaits ci pairs m = true → present (aside m) = false

/-- What is known when steps are still to be chosen for some pairs: the sources that have not
left are theirs, and nothing has been put at their destinations. -/
structure Pending (ci : Bool) (sourceKeys : List PathKey) (o : Occupancy)
    (pairs : List (Path × Path)) : Prop where
  sorted : pairs.Pairwise fun m n => compare m.1 n.1 = .lt
  sources : (pairs.map fun m => m.1.key ci).Nodup
  targets : (pairs.map fun m => m.2.key ci).Nodup
  standing : ∀ k, k ∈ sourceKeys ∧ k ∉ o.vacated ↔ k ∈ pairs.map fun m => m.1.key ci
  unfilled : ∀ m ∈ pairs, m.2.key ci ∉ o.filled
  planned : ∀ m ∈ pairs, m.2.key ci ∈ o.planned

section

variable {o : Occupancy} {m n : Path × Path} {rest : List (Path × Path)}

theorem ne_of_before (before : compare m.1 n.1 = .lt) : n ≠ m := by
  rintro rfl
  rw [Path.compare_eq_iff.2 rfl] at before
  cases before

/-- A pair that is first in order awaits one of the rest. -/
theorem awaits_head (sorted : (m :: rest).Pairwise fun m n => compare m.1 n.1 = .lt) :
    awaits ci (m :: rest) m = true ↔
      m.2.key ci ≠ m.1.key ci ∧ m.2.key ci ∈ rest.map fun n => n.1.key ci := by
  rw [awaits_iff, List.mem_map]
  refine and_congr_right fun _ => ⟨?_, ?_⟩
  · rintro ⟨n, member, later, same⟩
    obtain rfl | member := List.mem_cons.1 member
    · exact absurd rfl (ne_of_before later)
    · exact ⟨n, member, same⟩
  · rintro ⟨n, member, same⟩
    exact ⟨n, List.mem_cons_of_mem m member, (List.pairwise_cons.1 sorted).1 n member, same⟩

/-- No pair awaits one before it. -/
theorem awaits_tail (sorted : (m :: rest).Pairwise fun m n => compare m.1 n.1 = .lt)
    (member : n ∈ rest) : awaits ci (m :: rest) n = awaits ci rest n := by
  have before : compare m.1 n.1 = .lt := (List.pairwise_cons.1 sorted).1 n member
  have not_later : (compare n.1 m.1 == .lt) = false := by
    rw [Std.OrientedCmp.gt_iff_lt.2 before]
    rfl
  rw [awaits, awaits, List.any_cons, not_later, Bool.false_and, Bool.false_or]

/-- The destination of the next pair is occupied exactly when a later source stands there. -/
theorem Pending.blocks_iff (pending : Pending ci sourceKeys o (m :: rest)) :
    o.blocks sourceKeys (m.1.key ci) (m.2.key ci) = true ↔ awaits ci (m :: rest) m = true := by
  rw [Plan.blocks_iff, awaits_head pending.sorted, pending.standing]
  refine and_congr_right fun other => ?_
  rw [or_iff_right (pending.unfilled m List.mem_cons_self), List.map_cons, List.mem_cons,
    or_iff_right other]

/-- What is known of the rest when the source of the next pair has gone to `goal`, which is not the
destination of another pair. -/
theorem Pending.next (pending : Pending ci sourceKeys o (m :: rest)) {planned : List PathKey}
    {goal : PathKey} (more : ∀ k, k ∈ o.planned → k ∈ planned)
    (apart : ∀ n ∈ rest, n.2.key ci ≠ goal) :
    Pending ci sourceKeys ⟨planned, m.1.key ci :: o.vacated, goal :: o.filled⟩ rest := by
  obtain ⟨other_source, sources⟩ := List.nodup_cons.1 pending.sources
  have new_source : m.1.key ci ∉ rest.map fun n => n.1.key ci := other_source
  have tail : ∀ {n}, n ∈ rest → n ∈ m :: rest := List.mem_cons_of_mem m
  refine ⟨(List.pairwise_cons.1 pending.sorted).2, sources, (List.nodup_cons.1 pending.targets).2,
    fun k => ?_, fun n member filled => ?_, fun n member => more _ (pending.planned n (tail member))⟩
  · rw [List.mem_cons, not_or, and_left_comm, pending.standing, List.map_cons, List.mem_cons]
    constructor
    · rintro ⟨other, here⟩
      exact here.resolve_left other
    · intro among
      exact ⟨fun same => new_source (same.symm ▸ among), .inr among⟩
  · obtain same | filled := List.mem_cons.1 filled
    · exact apart n member same
    · exact pending.unfilled n (tail member) filled

variable (ci) in
/-- The steps of the rest do not depend on the first pair, nor on where it steps aside. -/
theorem firstStep_tail (sorted : (m :: rest).Pairwise fun m n => compare m.1 n.1 = .lt)
    (aside : Path × Path → Path) {aside' : Path × Path → Path} (same : ∀ n ∈ rest, aside' n = aside n) :
    rest.map (firstStep ci (m :: rest) aside') = rest.map (firstStep ci rest aside) ∧
      (rest.filter (awaits ci (m :: rest))).map (delayedStep aside') =
        (rest.filter (awaits ci rest)).map (delayedStep aside) := by
  have filtered : rest.filter (awaits ci (m :: rest)) = rest.filter (awaits ci rest) :=
    List.filter_congr fun n member => awaits_tail sorted member
  rw [filtered]
  constructor
  · refine List.map_congr_left fun n member => ?_
    rw [firstStep, firstStep, awaits_tail sorted member, same n member]
  · refine List.map_congr_left fun n member => ?_
    rw [delayedStep, delayedStep, same n (List.mem_of_mem_filter member)]

end

/-- The chosen steps are the two phases of the pairs. -/
theorem Chosen.eq_phases {o : Occupancy} {pairs : List (Path × Path)}
    {steps delayed : List RenameStep}
    (chosen : Chosen present ci sourceKeys o pairs steps delayed)
    (pending : Pending ci sourceKeys o pairs) :
    ∃ aside, steps = pairs.map (firstStep ci pairs aside) ∧
      delayed = (pairs.filter (awaits ci pairs)).map (delayedStep aside) := by
  induction chosen with
  | nil => exact ⟨Prod.snd, rfl, rfl⟩
  | @direct o source target rest steps delayed clear later ih =>
      have other : ∀ n ∈ rest, n.2.key ci ≠ target.key ci := fun n member same =>
        (List.nodup_cons.1 pending.targets).1 (List.mem_map.2 ⟨n, member, same⟩)
      obtain ⟨aside, rfl, rfl⟩ := ih (pending.next (fun _ => id) other)
      have straight : awaits ci ((source, target) :: rest) (source, target) = false := by
        rw [Bool.eq_false_iff, ne_eq, ← pending.blocks_iff, clear]
        exact Bool.false_ne_true
      obtain ⟨first, second⟩ := firstStep_tail ci pending.sorted aside fun n _ => rfl
      refine ⟨aside, ?_, ?_⟩
      · rw [List.map_cons, first, firstStep, if_neg (Bool.eq_false_iff.1 straight)]
      · rw [List.filter_cons_of_neg (Bool.eq_false_iff.1 straight), second]
  | @staged o source target name rest steps delayed blocked unplanned absent later ih =>
      have other : ∀ n ∈ rest, n.2.key ci ≠ name.key ci := fun n member same =>
        unplanned (same ▸ pending.planned n (List.mem_cons_of_mem _ member))
      obtain ⟨aside, rfl, rfl⟩ := ih (pending.next (fun _ => List.mem_cons_of_mem _) other)
      have waits := pending.blocks_iff.1 blocked
      -- The first pair is none of the rest, so a name for it changes nothing there.
      have kept : ∀ n ∈ rest, Function.update aside (source, target) name n = aside n := by
        intro n member
        have before := (List.pairwise_cons.1 pending.sorted).1 n member
        exact Function.update_of_ne (ne_of_before before) name aside
      obtain ⟨first, second⟩ := firstStep_tail ci pending.sorted aside kept
      refine ⟨Function.update aside (source, target) name, ?_, ?_⟩
      · rw [List.map_cons, first, firstStep, if_pos waits, Function.update_self]
      · rw [List.filter_cons_of_pos waits, List.map_cons, second, delayedStep, Function.update_self]

section

variable {pairs : PathPairs} {plan : RenamePlan}

/-- A plan without conflicts is one that is carried out. -/
theorem strict_of_withConflicts (planned : withConflicts present ci pairs = .ok plan)
    (clear : plan.conflicts = []) : strict present ci pairs = .ok plan := by
  rw [strict, planned]
  change (if plan.conflicts.isEmpty = true then Except.ok plan else _) = _
  rw [if_pos (List.isEmpty_iff.2 clear)]

theorem source_keys_nodup (planned : withConflicts present ci pairs = .ok plan) :
    ((changing pairs).map fun m => m.1.key ci).Nodup := by
  cases distinct : repeatedSource? ci [] (changing pairs) with
  | some source =>
      rw [withConflicts_of_repeated distinct] at planned
      cases planned
  | none => exact (repeatedSource?_eq_none_iff.1 distinct).1

/-- Before the first step all sources stand where they are. -/
theorem pending_changing (planned : withConflicts present ci pairs = .ok plan)
    (clear : conflicts present ci ((changing pairs).map fun m => m.1.key ci) (changing pairs) = []) :
    Pending ci ((changing pairs).map fun m => m.1.key ci)
      ⟨((changing pairs).map fun m => m.1.key ci) ++ (changing pairs).map fun m => m.2.key ci, [], []⟩
      (changing pairs) where
  sorted := pairs.sorted.filter _
  sources := source_keys_nodup planned
  targets := targetKeys_nodup clear
  standing _ := and_iff_left List.not_mem_nil
  unfilled _ _ := List.not_mem_nil
  planned m member := List.mem_append_right _ (List.mem_map.2 ⟨m, member, rfl⟩)

/-- A plan without conflicts takes one first-phase step for each file that is to move, in order,
and then one delayed step for each that stepped aside, in the same order. A file steps aside
exactly when the source of a later one has the key of its destination and its own has not, and
the names for that are all different, and free of all keys of the batch and on the disk. -/
theorem steps_eq_phases (planned : withConflicts present ci pairs = .ok plan)
    (clear : plan.conflicts = []) :
    ∃ aside, plan.steps = phases ci aside (changing pairs) ∧
      Asides present ci (changing pairs) aside := by
  obtain ⟨none_found, steps, delayed, rfl, chosen⟩ :=
    strict_eq_ok (strict_of_withConflicts planned clear)
  obtain ⟨aside, rfl, rfl⟩ := chosen.eq_phases (pending_changing planned none_found)
  have later : ∀ m ∈ changing pairs, awaits ci (changing pairs) m = true →
      delayedStep aside m ∈ ((changing pairs).filter (awaits ci (changing pairs))).map (delayedStep aside) :=
    fun m member waits => List.mem_map.2 ⟨m, List.mem_filter.2 ⟨member, waits⟩, rfl⟩
  refine ⟨aside, rfl, ?_, fun m member waits n among => ?_, fun m member waits => ?_⟩
  · have apart := chosen.delayed_sources_nodup
    rw [List.map_map] at apart
    exact apart
  · have unplanned := (chosen.delayed_cases (later m member waits)).2.1
    rw [List.mem_append, not_or] at unplanned
    exact ⟨fun same => unplanned.1 (List.mem_map.2 ⟨n, among, same.symm⟩),
      fun same => unplanned.2 (List.mem_map.2 ⟨n, among, same.symm⟩)⟩
  · exact (chosen.delayed_cases (later m member waits)).2.2.1

end

/-- Three files that each get the next one's name, in other letters, and one that only gets other
letters. -/
def turnedPairs : PathPairs :=
  .ofList [(.ofString "a", .ofString "B"), (.ofString "b", .ofString "C"),
    (.ofString "c", .ofString "A"), (.ofString "d", .ofString "D")]

/-- The plan for them where the first intermediate name is taken. -/
def turnedPlan : RenamePlan where
  steps :=
    [⟨.ofString "a", .ofString "B[2]", .staged⟩, ⟨.ofString "b", .ofString "C[1]", .staged⟩,
      ⟨.ofString "c", .ofString "A", .direct⟩, ⟨.ofString "d", .ofString "D", .direct⟩,
      ⟨.ofString "B[2]", .ofString "B", .delayed⟩, ⟨.ofString "C[1]", .ofString "C", .delayed⟩]
  conflicts := []
  caseInsensitive := true

theorem steps_eq_phases_turned :
    let w := World.sample [("a", ""), ("b", ""), ("c", ""), ("d", ""), ("B[1]", "")]
    withConflicts w.present true turnedPairs = .ok turnedPlan ∧ turnedPlan.conflicts = [] ∧
      ∃ aside, turnedPlan.steps = phases true aside (changing turnedPairs) ∧
        Asides w.present true (changing turnedPairs) aside := by
  intro w
  have planned : withConflicts w.present true turnedPairs = .ok turnedPlan := by decide +kernel
  exact ⟨planned, rfl, steps_eq_phases planned rfl⟩

end Renumber.Plan
