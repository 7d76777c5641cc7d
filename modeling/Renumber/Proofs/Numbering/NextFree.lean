import Renumber.Proofs.Numbering.FirstFit
import Renumber.Proofs.World.Sample

/-!
# The next free counter

A starting counter is free when the plain names of the batch from there on do not clash, with
each other or with foreign files. The least free one up to a limit is looked for, and that is
where a numbering gives every source its plain name.
-/

namespace Renumber.Numbering

open Renumber.Pattern (maxCounter)

variable {g : Numbering} {present : Path → Bool} {sources rest : List Path} {placed : List PathKey}
  {source : Path} {counter i n start tries : Nat}

/-! ## Plain names -/

/-- The same numbering from another counter on. -/
def startingAt (g : Numbering) (n : Nat) : Numbering :=
  { g with options := { g.options with start := n } }

/-- The plain names of sources, the first of which is at a position. -/
def plainFrom (g : Numbering) (i : Nat) (sources : List Path) : List Path :=
  (sources.zipIdx i).map fun (source, j) => g.candidate source (g.counterAt j) none

/-- The plain names of a batch that starts at a counter. -/
def plainNames (g : Numbering) (n : Nat) (sources : List Path) : List Path :=
  (g.startingAt n).plainFrom 0 sources

/-- Two plain names of a batch that starts at a counter have one key, or something foreign is at
one of them. -/
def Clashes (g : Numbering) (present : Path → Bool) (sources : List Path) (n : Nat) : Prop :=
  ¬((g.plainNames n sources).map g.key).Nodup ∨
    ∃ p ∈ g.plainNames n sources, g.Foreign present sources p

theorem plainFrom_cons (g : Numbering) (i : Nat) (source : Path) (rest : List Path) :
    g.plainFrom i (source :: rest) =
      g.candidate source (g.counterAt i) none :: g.plainFrom (i + 1) rest := by
  rw [plainFrom, List.zipIdx_cons, List.map_cons]
  rfl

/-- The plain names are clear when they have keys of their own, none of which was placed before,
and nothing foreign is at them. -/
theorem isClear_iff (g : Numbering) (present : Path → Bool) (sources : List Path) (placed : List PathKey)
    (i : Nat) (rest : List Path) :
    g.isClear present (sources.map g.key) placed (g.counterAt i) rest = true ↔
      ((g.plainFrom i rest).map g.key).Nodup ∧
        ∀ p ∈ g.plainFrom i rest, g.key p ∉ placed ∧ ¬g.Foreign present sources p := by
  induction rest generalizing placed i with
  | nil => exact iff_of_true rfl ⟨.nil, nofun⟩
  | cons source rest ih =>
      rw [isClear, plainFrom_cons, nextCounter_counterAt, Bool.and_eq_true, ih, Bool.not_eq_true',
        ← Bool.not_eq_true, collides, Bool.or_eq_true, isForeign_iff, List.contains_iff_mem, not_or,
        List.map_cons, List.nodup_cons, List.forall_mem_cons, List.mem_map]
      constructor
      · rintro ⟨own, distinct, others⟩
        refine ⟨⟨?_, distinct⟩, own, fun p member => ?_⟩
        · rintro ⟨p, member, same⟩
          exact (others p member).1 (same ▸ List.mem_cons_self)
        · exact ⟨fun before => (others p member).1 (List.mem_cons_of_mem _ before), (others p member).2⟩
      · rintro ⟨⟨new, distinct⟩, own, others⟩
        refine ⟨own, distinct, fun p member => ⟨fun before => ?_, (others p member).2⟩⟩
        obtain same | before := List.mem_cons.1 before
        · exact new ⟨p, member, same⟩
        · exact (others p member).1 before

/-- Whether plain names are clear does not depend on where the numbering starts. -/
theorem isClear_startingAt (g : Numbering) (n : Nat) (present : Path → Bool) (keys placed : List PathKey)
    (counter : Nat) (rest : List Path) :
    (g.startingAt n).isClear present keys placed counter rest = g.isClear present keys placed counter rest := by
  induction rest generalizing placed counter with
  | nil => rfl
  | cons source rest ih =>
      rw [isClear, isClear, ih]
      rfl

/-- A batch is clear from a counter on when it does not clash there. -/
theorem isClear_start (counted : n ≤ maxCounter) :
    g.isClear present (sources.map g.key) [] n sources = true ↔ ¬g.Clashes present sources n := by
  have first : (g.startingAt n).counterAt 0 = n := Nat.min_eq_left counted
  have clear := isClear_iff (g.startingAt n) present sources [] 0 sources
  rw [first, isClear_startingAt] at clear
  rw [Clashes, not_or, not_not, not_exists]
  refine clear.trans (and_congr_right fun _ => forall_congr' fun p => ?_)
  rw [not_and]
  exact forall_congr' fun _ => and_iff_right List.not_mem_nil

theorem not_isClear_start (counted : n ≤ maxCounter) :
    (!g.isClear present (sources.map g.key) [] n sources) = true ↔ g.Clashes present sources n := by
  rw [Bool.not_eq_true', ← Bool.not_eq_true, isClear_start counted, not_not]

/-! ## The least free counter -/

theorem counted_of_le (limited : n ≤ maxStart) : n ≤ maxCounter :=
  Nat.le_trans limited (by decide)

/-- The counters are tried one after the other. -/
theorem firstClear?_eq (g : Numbering) (present : Path → Bool) (sources : List Path) (tries start : Nat) :
    g.firstClear? present sources tries start = (List.range' start tries).find? fun n =>
      g.isClear present (sources.map g.key) [] n sources := by
  induction tries generalizing start with
  | zero => rfl
  | succ tries ih =>
      rw [firstClear?, List.range'_succ, List.find?_cons, ← ih]
      split
      · next clear => rw [clear]
      · next clash => rw [Bool.eq_false_iff.2 clash]

/-- The least counter from a start up to the greatest one that is tried is found, if the batch
does not clash for all of them. -/
theorem nextFree_eq_ok : g.nextFree present sources = .ok n ↔
    g.options.start ≤ n ∧ n ≤ maxStart ∧ ¬g.Clashes present sources n ∧
      ∀ m, g.options.start ≤ m → m < n → g.Clashes present sources m := by
  have outcome : g.nextFree present sources = .ok n ↔
      g.firstClear? present sources (maxStart + 1 - g.options.start) g.options.start = some n := by
    rw [nextFree]
    split
    · next found => rw [found, Except.ok.injEq, Option.some.injEq]
    · next none_found => exact iff_of_false nofun (none_found ▸ nofun)
  rw [outcome, firstClear?_eq, List.find?_range'_eq_some, List.mem_range'_1]
  constructor
  · rintro ⟨clear, ⟨started, limited⟩, others⟩
    have limited : n ≤ maxStart := by omega
    refine ⟨started, limited, (isClear_start (counted_of_le limited)).1 clear, fun m later earlier => ?_⟩
    exact (not_isClear_start (counted_of_le (by omega))).1 (others m later earlier)
  · rintro ⟨started, limited, free, others⟩
    refine ⟨(isClear_start (counted_of_le limited)).2 free, ⟨started, by omega⟩, fun m later earlier => ?_⟩
    exact (not_isClear_start (counted_of_le (by omega))).2 (others m later earlier)

theorem nextFree_eq_error {failure : Failure} : g.nextFree present sources = .error failure ↔
    failure = .noFreeCounter g.options.start maxStart ∧
      ∀ m, g.options.start ≤ m → m ≤ maxStart → g.Clashes present sources m := by
  have outcome : g.nextFree present sources = .error failure ↔
      failure = .noFreeCounter g.options.start maxStart ∧
        g.firstClear? present sources (maxStart + 1 - g.options.start) g.options.start = none := by
    rw [nextFree]
    split
    · next found => exact iff_of_false nofun fun both => nomatch found.symm.trans both.2
    · next none_found => rw [none_found, Except.error.injEq, eq_comm, and_iff_left rfl]
  rw [outcome, firstClear?_eq, List.find?_range'_eq_none]
  refine and_congr_right fun _ => forall_congr' fun m => forall_congr' fun later => ?_
  constructor
  · intro clash limited
    exact (not_isClear_start (counted_of_le limited)).1 (clash (by omega))
  · intro clash limited
    have limited : m ≤ maxStart := by omega
    exact (not_isClear_start (counted_of_le limited)).2 (clash limited)

/-! ## Numbering from there -/

/-- A file whose plain name is free is placed there, whether or not destinations are kept
apart. -/
theorem placeOne_plain
    (free : g.collides present (sources.map g.key) placed (g.candidate source counter none) = false) :
    g.placeOne present (sources.map g.key) placed source counter = .ok (g.candidate source counter none) := by
  have found : g.free? present (sources.map g.key) placed source counter none =
      some (g.candidate source counter none) := free?_eq_some.2 ⟨rfl, free⟩
  exact if_pos (Bool.or_eq_true_iff.2 (.inr (Option.isSome_of_eq_some found)))

/-- Files whose plain names are clear are placed there. -/
theorem numberFrom_plain (clear : g.isClear present (sources.map g.key) placed (g.counterAt i) rest = true)
    (out : Numbered) :
    g.numberFrom present (sources.map g.key) placed (g.counterAt i) out rest =
      .ok ⟨(rest.zip (g.plainFrom i rest)).foldl (fun m e => m.insert e.1 e.2) out.pairs,
        g.counterAt (i + rest.length), out.warnings ++ g.shortfallsFrom i rest⟩ := by
  induction rest generalizing placed i out with
  | nil =>
      rw [shortfallsFrom, List.zipIdx_nil, List.flatMap_nil, List.append_nil]
      rfl
  | cons source rest ih =>
      rw [isClear, Bool.and_eq_true, Bool.not_eq_true', nextCounter_counterAt] at clear
      rw [numberFrom, placeOne_plain clear.1, nextCounter_counterAt]
      refine (ih clear.2 _).trans ?_
      rw [shortfallsFrom_cons, plainFrom_cons, List.append_assoc, List.length_cons, Nat.add_assoc,
        Nat.add_comm 1]
      rfl

/-- From the next free counter on every source is given its plain name. -/
theorem number_nextFree (found : g.nextFree present sources = .ok n) :
    (g.startingAt n).number present sources =
      .ok ((g.startingAt n).batchOf sources (g.plainNames n sources)) := by
  obtain ⟨-, limited, free, -⟩ := nextFree_eq_ok.1 found
  have first : (g.startingAt n).counterAt 0 = n := Nat.min_eq_left (counted_of_le limited)
  have clear : (g.startingAt n).isClear present (sources.map (g.startingAt n).key) []
      ((g.startingAt n).counterAt 0) sources = true := by
    rw [first, isClear_startingAt]
    exact (isClear_start (counted_of_le limited)).2 free
  have placed := numberFrom_plain clear ⟨∅, n, []⟩
  rw [first, Nat.zero_add, List.nil_append] at placed
  exact placed

/-- The next free counter is the least one, from the start to the greatest that is tried, at which
the batch does not clash; from there the same numbering succeeds and gives every source its plain
name. There is none exactly when the batch clashes at all of them. -/
theorem nextFree_agrees (g : Numbering) (present : Path → Bool) (sources : List Path) :
    (∀ n, g.nextFree present sources = .ok n ↔
      g.options.start ≤ n ∧ n ≤ maxStart ∧ ¬g.Clashes present sources n ∧
        ∀ m, g.options.start ≤ m → m < n → g.Clashes present sources m) ∧
    (∀ n, g.nextFree present sources = .ok n → (g.startingAt n).number present sources =
      .ok ((g.startingAt n).batchOf sources (g.plainNames n sources))) ∧
    ∀ failure, g.nextFree present sources = .error failure ↔
      failure = .noFreeCounter g.options.start maxStart ∧
        ∀ m, g.options.start ≤ m → m ≤ maxStart → g.Clashes present sources m :=
  ⟨fun _ => nextFree_eq_ok, fun _ => number_nextFree, fun _ => nextFree_eq_error⟩

/-- Two files get the counters four and five, as files that are not in the batch have the first
and the third name. Beyond the greatest counter that is tried nothing is free. -/
theorem nextFree_agrees_gap :
    let g : Numbering := ⟨.parse ['f', '_', '#'], {}, by decide +kernel⟩
    let w := World.sample [("a.txt", ""), ("b.txt", ""), ("f_1.txt", ""), ("f_3.txt", "")]
    let sources : List Path := [.ofString "/w/a.txt", .ofString "/w/b.txt"]
    g.nextFree w.present sources = .ok 4 ∧
      (g.startingAt 4).number w.present sources = .ok ((g.startingAt 4).batchOf sources
        [.ofString "/w/f_4.txt", .ofString "/w/f_5.txt"]) ∧
      (∀ m, 1 ≤ m → m < 4 → g.Clashes w.present sources m) ∧
      (g.startingAt 100000).nextFree w.present sources = .error (.noFreeCounter 100000 maxStart) := by
  intro g w sources
  have found : g.nextFree w.present sources = .ok 4 := by decide +kernel
  have names : g.plainNames 4 sources = [.ofString "/w/f_4.txt", .ofString "/w/f_5.txt"] := by
    decide +kernel
  obtain ⟨least, plain, -⟩ := nextFree_agrees g w.present sources
  obtain ⟨-, -, none_free⟩ := nextFree_agrees (g.startingAt 100000) w.present sources
  obtain ⟨-, -, -, others⟩ := (least 4).1 found
  refine ⟨found, names ▸ plain 4 found, others, (none_free _).2 ⟨rfl, fun m later limited => ?_⟩⟩
  have beyond : 100000 ≤ maxStart := Nat.le_trans later limited
  exact absurd beyond (by decide)

end Renumber.Numbering
