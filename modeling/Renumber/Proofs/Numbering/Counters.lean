import Renumber.Proofs.Numbering.NextFree

/-!
# Counters of a batch

The counter goes up by one for every source, whatever is chosen for the batch, and nothing that
is written with another counter matters. Only the greatest counter stays. So the counters of a
batch are different, and the next batch has others, exactly as far as there are enough of them.
-/

namespace Renumber.Numbering

open Renumber.Pattern (maxCounter)

variable {g g' : Numbering} {present : Path → Bool} {sources rest targets : List Path}
  {sourceKeys placed : List PathKey} {source target : Path} {counter i count : Nat} {numbered out : Numbered}

/-! ## What is written for a batch -/

/-- Each destination is one that is written for its source, the first of which is at a position. -/
def Written (g : Numbering) (i : Nat) (sources targets : List Path) : Prop :=
  List.Forall₂ (fun s target => target ∈ g.choices s.1 (g.counterAt s.2)) (sources.zipIdx i) targets

/-- Whatever the numbering chooses, a file is placed at a destination that is written for it. -/
theorem placeOne_mem_choices
    (done : g.placeOne present sourceKeys placed source counter = .ok target) :
    target ∈ g.choices source counter := by
  cases unique : g.options.unique with
  | true =>
      obtain ⟨⟨d, tried, rfl⟩, -⟩ := placeOne_ok unique done
      rw [choices_eq]
      exact List.mem_map_of_mem tried
  | false =>
      rw [placeOne_unkept unique] at done
      cases done
      exact List.mem_cons_self

/-- The sources from a position on are numbered with the counters from there on. -/
theorem numberFrom_written
    (done : g.numberFrom present sourceKeys placed (g.counterAt i) out rest = .ok numbered) :
    ∃ targets, g.Written i rest targets ∧
      numbered = ⟨(rest.zip targets).foldl (fun m e => m.insert e.1 e.2) out.pairs,
        g.counterAt (i + rest.length), out.warnings ++ g.shortfallsFrom i rest⟩ := by
  induction rest generalizing placed i out with
  | nil =>
      rw [numberFrom] at done
      cases done
      refine ⟨[], .nil, ?_⟩
      rw [shortfallsFrom, List.zipIdx_nil, List.flatMap_nil, List.append_nil]
      rfl
  | cons source rest ih =>
      rw [numberFrom] at done
      cases one : g.placeOne present sourceKeys placed source (g.counterAt i) with
      | error failure =>
          rw [one] at done
          cases done
      | ok target =>
          rw [one, nextCounter_counterAt] at done
          obtain ⟨targets, written, rfl⟩ := ih done
          refine ⟨target :: targets, .cons (placeOne_mem_choices one) written, ?_⟩
          rw [shortfallsFrom_cons, List.append_assoc, List.length_cons, Nat.add_assoc, Nat.add_comm 1]
          rfl

/-- A batch is numbered with the counters from the start on. -/
theorem number_written (counted : g.options.start ≤ maxCounter)
    (made : g.number present sources = .ok numbered) :
    ∃ targets, g.Written 0 sources targets ∧ numbered = g.batchOf sources targets := by
  have start : g.counterAt 0 = g.options.start := Nat.min_eq_left counted
  rw [number, ← start] at made
  obtain ⟨targets, written, rfl⟩ := numberFrom_written made
  refine ⟨targets, written, ?_⟩
  rw [Nat.zero_add, List.nil_append]
  rfl

/-! ## What is not looked at -/

/-- Two numberings write the same for a source with a counter. -/
def Alike (g g' : Numbering) (source : Path) (counter : Nat) : Prop :=
  ∀ d, g'.spec.formatPath source counter d g.options.folder =
    g.spec.formatPath source counter d g.options.folder

section

variable (options : g'.options = g.options)

include options

theorem key_of_options : g'.key = g.key := by
  funext p
  rw [key, options]
  rfl

theorem Alike.placeOne (alike : g.Alike g' source counter) :
    g'.placeOne present sourceKeys placed source counter =
      g.placeOne present sourceKeys placed source counter := by
  have same : ∀ d, g'.candidate source counter d = g.candidate source counter d := by
    intro d
    rw [candidate, options, alike]
    rfl
  have taken : g'.collides present sourceKeys placed = g.collides present sourceKeys placed := by
    funext p
    rw [collides, collides, isForeign, isForeign, key_of_options options, options]
  rw [Numbering.placeOne, Numbering.placeOne, taken, options]
  simp only [same]

/-- Nothing matters that is written for a source with another counter than its own. -/
theorem numberFrom_congr (alike : ∀ s ∈ rest.zipIdx i, g.Alike g' s.1 (g.counterAt s.2)) (out : Numbered) :
    g'.numberFrom present sourceKeys placed (g.counterAt i) out rest =
      g.numberFrom present sourceKeys placed (g.counterAt i) out rest := by
  induction rest generalizing placed i out with
  | nil => rfl
  | cons source rest ih =>
      obtain ⟨own, others⟩ := List.forall_mem_cons.1 alike
      rw [numberFrom, numberFrom, own.placeOne options, options, own, key_of_options options,
        nextCounter_counterAt]
      cases g.placeOne present sourceKeys placed source (g.counterAt i) with
      | error failure => rfl
      | ok target => exact ih others _

theorem number_congr (counted : g.options.start ≤ maxCounter)
    (alike : ∀ s ∈ sources.zipIdx, g.Alike g' s.1 (g.counterAt s.2)) :
    g'.number present sources = g.number present sources := by
  have start : g.options.start = g.counterAt 0 := (Nat.min_eq_left counted).symm
  rw [number, number, options, key_of_options options, start]
  exact numberFrom_congr options alike _

end

/-! ## The counters -/

/-- The counters of a batch of some sources. -/
def counters (g : Numbering) (count : Nat) : List Nat :=
  (List.range count).map g.counterAt

theorem mem_counters {c : Nat} : c ∈ g.counters count ↔ ∃ i, i < count ∧ g.counterAt i = c := by
  rw [counters, List.mem_map]
  simp only [List.mem_range]

/-- The counters go up by one as long as there are enough of them. -/
theorem counters_eq_range' (enough : g.options.start + count ≤ maxCounter + 1) :
    g.counters count = List.range' g.options.start count := by
  rw [counters, List.range'_eq_map_range]
  refine List.map_congr_left fun i member => Nat.min_eq_left ?_
  have inside := List.mem_range.1 member
  omega

/-- The counters of a batch are all different when there are enough of them. -/
theorem counters_nodup_iff (counted : g.options.start ≤ maxCounter) :
    (g.counters count).Nodup ↔ g.options.start + count ≤ maxCounter + 1 := by
  constructor
  · intro distinct
    by_contra few
    -- the last two sources of the batch get the greatest counter
    have last : count - 1 < count := by omega
    have same : g.counterAt (count - 2) = g.counterAt (count - 1) := by
      rw [counterAt, counterAt]
      omega
    have equal := List.inj_on_of_nodup_map distinct (List.mem_range.2 (by omega : count - 2 < count))
      (List.mem_range.2 last) same
    omega
  · intro enough
    rw [counters_eq_range' enough]
    exact List.nodup_range'

/-- The counter after a batch is greater than those of the batch when there is another one. -/
theorem counters_lt_iff (counted : g.options.start ≤ maxCounter) :
    (∀ c ∈ g.counters count, c < g.counterAt count) ↔ g.options.start + count ≤ maxCounter := by
  constructor
  · intro less
    by_contra few
    have last := less _ (mem_counters.2 ⟨count - 1, by omega, rfl⟩)
    rw [counterAt, counterAt] at last
    omega
  · intro enough c member
    obtain ⟨i, inside, rfl⟩ := mem_counters.1 member
    rw [counterAt, counterAt]
    omega

/-- The next batches have other counters when there is another one. -/
theorem counters_disjoint_iff (counted : g.options.start ≤ maxCounter) :
    (∀ more, (g.counters count).Disjoint ((g.startingAt (g.counterAt count)).counters more)) ↔
      g.options.start + count ≤ maxCounter := by
  have next : ∀ j, (g.startingAt (g.counterAt count)).counterAt j = min (g.counterAt count + j) maxCounter :=
    fun _ => rfl
  constructor
  · intro apart
    by_contra few
    have last : g.counterAt (count - 1) ∈ g.counters count := mem_counters.2 ⟨count - 1, by omega, rfl⟩
    refine apart 1 last (mem_counters.2 ⟨0, Nat.one_pos, ?_⟩)
    rw [next, counterAt, counterAt]
    omega
  · intro enough more c member member'
    have less := (counters_lt_iff counted).2 enough c member
    obtain ⟨j, -, same⟩ := mem_counters.1 member'
    rw [next] at same
    rw [counterAt] at less same
    omega

/-- A batch that is numbered is written with the counters from the start on, one more for every
source; what would be written with others does not matter. The counter for the next batch is the
one after those. The counters are all different exactly when there are enough of them for the
batch; and the next counter is greater than all of them, and no later batch has one of them,
exactly when there is another one: the greatest counter stays. -/
theorem number_counts (counted : g.options.start ≤ maxCounter)
    (made : g.number present sources = .ok numbered) :
    (∃ targets, g.Written 0 sources targets ∧ numbered = g.batchOf sources targets) ∧
    (∀ g' : Numbering, g'.options = g.options →
      (∀ s ∈ sources.zipIdx, g.Alike g' s.1 (g.counterAt s.2)) →
        g'.number present sources = .ok numbered) ∧
    (g.options.start + sources.length ≤ maxCounter + 1 →
      g.counters sources.length = List.range' g.options.start sources.length) ∧
    ((g.counters sources.length).Nodup ↔ g.options.start + sources.length ≤ maxCounter + 1) ∧
    numbered.nextCounter = min (g.options.start + sources.length) maxCounter ∧
    ((∀ c ∈ g.counters sources.length, c < numbered.nextCounter) ↔
      g.options.start + sources.length ≤ maxCounter) ∧
    ((∀ more, (g.counters sources.length).Disjoint
        ((g.startingAt numbered.nextCounter).counters more)) ↔
      g.options.start + sources.length ≤ maxCounter) := by
  obtain ⟨targets, written, same⟩ := number_written counted made
  have next : numbered.nextCounter = g.counterAt sources.length := by rw [same, batchOf]
  rw [next]
  exact ⟨⟨targets, written, same⟩, fun g' options alike => (number_congr options counted alike).trans made,
    counters_eq_range', counters_nodup_iff counted, rfl, counters_lt_iff counted,
    counters_disjoint_iff counted⟩

/-- Two files get the last two counters but one; a next batch still gets the greatest. -/
theorem number_counts_last :
    let g : Numbering := ⟨.parse ['#'], { start := 4294967293 }, by decide +kernel⟩
    let present : Path → Bool := fun _ => false
    let sources : List Path := [.ofString "/a/x", .ofString "/a/y"]
    ∃ numbered, g.number present sources = .ok numbered ∧ numbered.nextCounter = 4294967295 ∧
      g.counters 2 = [4294967293, 4294967294] ∧ (∀ c ∈ g.counters 2, c < numbered.nextCounter) ∧
      sources.filterMap numbered.pairs.find? = [.ofString "/a/4294967293", .ofString "/a/4294967294"] := by
  intro g present sources
  have known : (g.number present sources).map (fun out => sources.filterMap out.pairs.find?) =
      .ok [.ofString "/a/4294967293", .ofString "/a/4294967294"] := by decide +kernel
  cases made : g.number present sources with
  | error failure =>
      rw [made] at known
      cases known
  | ok numbered =>
      rw [made] at known
      obtain ⟨-, -, up, -, next, less, -⟩ := number_counts (g := g) (by decide) made
      exact ⟨numbered, rfl, next, up (by decide), less.2 (by decide), Except.ok.inj known⟩

/-- Two files that start at the greatest counter both get it, the second one with a decorator, and
so would the next batch. -/
theorem not_number_counts_greatest :
    let g : Numbering := ⟨.parse ['#'], { start := 4294967295, maxDuplicates := 2 }, by decide +kernel⟩
    let present : Path → Bool := fun _ => false
    let sources : List Path := [.ofString "/a/x", .ofString "/a/y"]
    ∃ numbered, g.number present sources = .ok numbered ∧
      numbered.nextCounter ≠ g.options.start + sources.length ∧
      numbered.pairs.find? (.ofString "/a/y") = some (.ofString "/a/4294967295_(2)") ∧
      .ofString "/a/4294967295_(2)" ∉ g.choices (.ofString "/a/y") (g.options.start + 1) ∧
      .ofString "/a/4294967295_(2)" ∈ g.choices (.ofString "/a/y") g.options.start ∧
      g.options.start = numbered.nextCounter := by
  intro g present sources
  have known : (g.number present sources).map
      (fun out => (out.nextCounter, out.pairs.find? (.ofString "/a/y"))) =
        .ok (4294967295, some (.ofString "/a/4294967295_(2)")) := by decide +kernel
  cases made : g.number present sources with
  | error failure =>
      rw [made] at known
      cases known
  | ok numbered =>
      rw [made] at known
      obtain ⟨next, second⟩ := Prod.mk.inj (Except.ok.inj known)
      refine ⟨numbered, rfl, ?_, second, by decide +kernel, by decide +kernel, next.symm⟩
      rw [next]
      decide

end Renumber.Numbering
