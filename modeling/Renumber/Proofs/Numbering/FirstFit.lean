import Renumber.Proofs.Numbering.Placed

/-!
# First fit

What a numbering gives to a batch is said here without a run of it. The sources are taken in
their order, and each is given the first of its destinations, the plain one and then the
decorated ones, that is taken neither by an earlier source nor by a file outside of the batch.
There is at most one way to do so. The numbering finds it; and where there is none it names the
first source that is left without a destination.
-/

namespace Renumber.Numbering

open Renumber.Pattern (maxCounter Shortfall)

variable {g : Numbering} {present : Path → Bool} {sources given targets before rest : List Path}
  {placed : List PathKey} {source target p : Path} {taken : Path → Prop} {tried : List Path} {i : Nat}

/-! ## What is given to a batch -/

/-- The counter of a source by its position: one more for every source, up to the greatest. -/
def counterAt (g : Numbering) (i : Nat) : Nat :=
  min (g.options.start + i) maxCounter

/-- The destinations that may be given to a source, in the order in which they are tried: the
plain one, and those with the decorators from two to the greatest. -/
def choices (g : Numbering) (source : Path) (counter : Nat) : List Path :=
  g.candidate source counter none ::
    (List.range' 2 (g.options.maxDuplicates - 1)).map fun d => g.candidate source counter (some d)

/-- Something outside of the batch stands at a path, and the numbering keeps clear of it. -/
def Foreign (g : Numbering) (present : Path → Bool) (sources : List Path) (p : Path) : Prop :=
  g.options.checkExisting = true ∧ present p = true ∧ ∀ s ∈ sources, g.key s ≠ g.key p

/-- A destination cannot be given: another with its key was, or something foreign is there. -/
def Taken (g : Numbering) (present : Path → Bool) (sources given : List Path) (p : Path) : Prop :=
  (∃ q ∈ given, g.key q = g.key p) ∨ g.Foreign present sources p

/-- The first of some paths that is not taken. -/
def FirstFree (taken : Path → Prop) (tried : List Path) (p : Path) : Prop :=
  ∃ before after, tried = before ++ p :: after ∧ (∀ q ∈ before, taken q) ∧ ¬taken p

/-- Destinations of the first sources of a batch: each is the first that was not taken when its
turn came. -/
def FirstFit (g : Numbering) (present : Path → Bool) (sources targets : List Path) : Prop :=
  ∀ i target, targets[i]? = some target → ∃ source, sources[i]? = some source ∧
    FirstFree (g.Taken present sources (targets.take i)) (g.choices source (g.counterAt i)) target

/-- These destinations were given, and all that may be given to the next source are taken. -/
structure Stuck (g : Numbering) (present : Path → Bool) (sources targets : List Path) (source : Path) :
    Prop where
  fit : g.FirstFit present sources targets
  next : sources[targets.length]? = some source
  taken : ∀ p ∈ g.choices source (g.counterAt targets.length), g.Taken present sources targets p

/-- What goes short in the plain names of sources, the first of which is at a position. -/
def shortfallsFrom (g : Numbering) (i : Nat) (sources : List Path) : List (Path × Shortfall) :=
  (sources.zipIdx i).flatMap fun (source, j) =>
    (g.spec.formatPath source (g.counterAt j) none g.options.folder).2.map (source, ·)

/-- A batch whose sources were given these destinations. -/
def batchOf (g : Numbering) (sources targets : List Path) : Numbered where
  pairs := .ofList (sources.zip targets)
  nextCounter := g.counterAt sources.length
  warnings := g.shortfallsFrom 0 sources

/-! ## The first free destination -/

theorem choices_eq (g : Numbering) (source : Path) (counter : Nat) :
    g.choices source counter = g.decorators.map (g.candidate source counter) := by
  rw [choices, decorators, List.map_cons, List.map_map, List.range'_eq_map_range]
  rfl

theorem isForeign_iff : g.isForeign present (sources.map g.key) p = true ↔ g.Foreign present sources p := by
  rw [isForeign, Foreign, Bool.and_eq_true, Bool.and_eq_true, Bool.not_eq_true', ← Bool.not_eq_true,
    List.contains_iff_mem, List.mem_map, and_assoc]
  simp only [not_exists, not_and, and_comm]

/-- The keys of what was given are all that has to be known of it. -/
theorem collides_iff (known : ∀ k, k ∈ placed ↔ k ∈ given.map g.key) :
    g.collides present (sources.map g.key) placed p = true ↔ g.Taken present sources given p := by
  rw [collides, Bool.or_eq_true, isForeign_iff, Taken, List.contains_iff_mem, known, List.mem_map]

theorem FirstFree.mem (free : FirstFree taken tried p) : p ∈ tried := by
  obtain ⟨before, after, rfl, -, -⟩ := free
  exact List.mem_append_right _ List.mem_cons_self

theorem FirstFree.unique {q : Path} (free : FirstFree taken tried p) (free' : FirstFree taken tried q) :
    p = q := by
  classical
  have found : ∀ {r}, FirstFree taken tried r → tried.find? (fun r => decide (¬taken r)) = some r := by
    rintro r ⟨before, after, all, others, own⟩
    refine List.find?_eq_some_iff_append.2 ⟨by simpa using own, before, after, all, fun q member => ?_⟩
    simpa using others q member
  exact Option.some.inj ((found free).symm.trans (found free'))

/-- A file is placed at its first destination that is free, or all of them are taken. -/
theorem placeOne_firstFree (present : Path → Bool) (sources : List Path) (source : Path) (counter : Nat)
    (unique : g.options.unique = true) (known : ∀ k, k ∈ placed ↔ k ∈ given.map g.key) :
    match g.placeOne present (sources.map g.key) placed source counter with
    | .ok target => FirstFree (g.Taken present sources given) (g.choices source counter) target
    | .error failure => (∀ p ∈ g.choices source counter, g.Taken present sources given p) ∧
        failure = .noUniqueName (g.candidate source counter none) g.options.maxDuplicates := by
  rw [placeOne_eq unique, choices_eq]
  cases found : g.decorators.findSome? (g.free? present (sources.map g.key) placed source counter) with
  | some target =>
      obtain ⟨before, d, after, all, free, others⟩ := List.findSome?_eq_some_iff.1 found
      obtain ⟨rfl, own⟩ := free?_eq_some.1 free
      refine ⟨before.map (g.candidate source counter), after.map (g.candidate source counter), ?_, ?_, ?_⟩
      · rw [all, List.map_append, List.map_cons]
      · rintro _ member
        obtain ⟨e, earlier, rfl⟩ := List.mem_map.1 member
        exact (collides_iff known).1 (free?_eq_none.1 (others e earlier))
      · exact fun is_taken => Bool.eq_false_iff.1 own ((collides_iff known).2 is_taken)
  | none =>
      refine ⟨fun p member => ?_, rfl⟩
      obtain ⟨d, is_tried, rfl⟩ := List.mem_map.1 member
      exact (collides_iff known).1 (free?_eq_none.1 (List.findSome?_eq_none_iff.1 found d is_tried))

/-! ## One destination after another -/

theorem FirstFit.nil : g.FirstFit present sources [] :=
  nofun

/-- A next source is given its first destination that is free. -/
theorem FirstFit.concat (fit : g.FirstFit present sources given) (next : sources[given.length]? = some source)
    (first : FirstFree (g.Taken present sources given) (g.choices source (g.counterAt given.length)) target) :
    g.FirstFit present sources (given ++ [target]) := by
  intro i last at_i
  obtain earlier | rfl | later := Nat.lt_trichotomy i given.length
  · rw [List.getElem?_append_left earlier] at at_i
    rw [List.take_append_of_le_length (Nat.le_of_lt earlier)]
    exact fit i last at_i
  · rw [List.getElem?_concat_length] at at_i
    cases at_i
    rw [List.take_left']
    · exact ⟨source, next, first⟩
    · rfl
  · rw [List.getElem?_eq_none] at at_i
    · cases at_i
    · rw [List.length_append, List.length_singleton]
      exact later

/-- Two ways to fit a batch agree as far as both go. -/
theorem FirstFit.take_eq {targets' : List Path} (fit : g.FirstFit present sources targets)
    (fit' : g.FirstFit present sources targets') :
    ∀ i, i ≤ targets.length → i ≤ targets'.length → targets.take i = targets'.take i := by
  intro i
  induction i with
  | zero => exact fun _ _ => rfl
  | succ i ih =>
      intro inside inside'
      have same := ih (Nat.le_of_succ_le inside) (Nat.le_of_succ_le inside')
      obtain ⟨source, at_i, first⟩ := fit i _ (List.getElem?_eq_getElem inside)
      obtain ⟨source', at_i', first'⟩ := fit' i _ (List.getElem?_eq_getElem inside')
      obtain rfl := Option.some.inj (at_i.symm.trans at_i')
      rw [same] at first
      rw [List.take_succ_eq_append_getElem inside, List.take_succ_eq_append_getElem inside', same,
        first.unique first']

theorem FirstFit.eq_of_length {targets' : List Path} (fit : g.FirstFit present sources targets)
    (fit' : g.FirstFit present sources targets') (length : targets.length = targets'.length) :
    targets = targets' := by
  have same := fit.take_eq fit' targets.length (Nat.le_refl _) (Nat.le_of_eq length)
  rwa [List.take_length, length, List.take_length] at same

theorem Stuck.length_lt (stuck : g.Stuck present sources given source) : given.length < sources.length :=
  (List.getElem?_eq_some_iff.1 stuck.next).1

/-- Nobody gets beyond a source for which everything is taken. -/
theorem Stuck.length_le (stuck : g.Stuck present sources given source)
    (fit : g.FirstFit present sources targets) : targets.length ≤ given.length := by
  by_contra further
  rw [Nat.not_le] at further
  have same := fit.take_eq stuck.fit given.length (Nat.le_of_lt further) (Nat.le_refl _)
  obtain ⟨source', at_next, first⟩ := fit given.length _ (List.getElem?_eq_getElem further)
  obtain rfl := Option.some.inj (stuck.next.symm.trans at_next)
  rw [same, List.take_length] at first
  obtain ⟨before, after, -, -, free⟩ := id first
  exact free (stuck.taken _ first.mem)

/-- What is given has keys of its own and is not foreign. -/
theorem FirstFit.apart (fit : g.FirstFit present sources targets) :
    (targets.map g.key).Nodup ∧ ∀ p ∈ targets, ¬g.Foreign present sources p := by
  have free : ∀ i target, targets[i]? = some target → ¬g.Taken present sources (targets.take i) target := by
    intro i target at_i
    obtain ⟨source, -, before, after, -, -, own⟩ := fit i target at_i
    exact own
  constructor
  · rw [List.Nodup, List.pairwise_map, List.pairwise_iff_getElem]
    intro i j in_i in_j earlier same
    refine free j _ (List.getElem?_eq_getElem in_j) (.inl ⟨targets[i], ?_, same⟩)
    rw [List.mem_take_iff_getElem]
    exact ⟨i, by omega, rfl⟩
  · intro p member
    obtain ⟨i, at_i⟩ := List.getElem?_of_mem member
    exact fun foreign => free i p at_i (.inr foreign)

/-! ## The run of a numbering -/

theorem nextCounter_counterAt (g : Numbering) (i : Nat) : nextCounter (g.counterAt i) = g.counterAt (i + 1) := by
  rw [nextCounter, counterAt, counterAt]
  omega

theorem shortfallsFrom_cons (g : Numbering) (i : Nat) (source : Path) (rest : List Path) :
    g.shortfallsFrom i (source :: rest) =
      (g.spec.formatPath source (g.counterAt i) none g.options.folder).2.map (source, ·) ++
        g.shortfallsFrom (i + 1) rest := by
  rw [shortfallsFrom, List.zipIdx_cons, List.flatMap_cons]
  rfl

/-- From where some sources have been given their destinations, the others are given theirs, up
to one for which all are taken. -/
theorem numberFrom_firstFit (present : Path → Bool) (sources : List Path)
    (unique : g.options.unique = true) (fit : g.FirstFit present sources given)
    (known : ∀ k, k ∈ placed ↔ k ∈ given.map g.key) (left : rest = sources.drop given.length)
    (out : Numbered) :
    match g.numberFrom present (sources.map g.key) placed (g.counterAt given.length) out rest with
    | .ok numbered => ∃ targets, targets.length = rest.length ∧
        g.FirstFit present sources (given ++ targets) ∧
        numbered = ⟨(rest.zip targets).foldl (fun m e => m.insert e.1 e.2) out.pairs,
          g.counterAt (given.length + rest.length),
          out.warnings ++ g.shortfallsFrom given.length rest⟩
    | .error failure => ∃ targets source, g.Stuck present sources (given ++ targets) source ∧
        failure = .noUniqueName (g.candidate source (g.counterAt (given ++ targets).length) none)
          g.options.maxDuplicates := by
  induction rest generalizing given placed out with
  | nil =>
      refine ⟨[], rfl, ?_, ?_⟩
      · rwa [List.append_nil]
      · rw [shortfallsFrom, List.zipIdx_nil, List.flatMap_nil, List.append_nil]
        rfl
  | cons source rest ih =>
      have next : sources[given.length]? = some source := by
        rw [← List.head?_drop, ← left]
        rfl
      have one := placeOne_firstFree present sources source (g.counterAt given.length) unique known
      rw [numberFrom]
      cases placing : g.placeOne present (sources.map g.key) placed source (g.counterAt given.length) with
      | error failure =>
          rw [placing] at one
          refine ⟨[], source, ?_⟩
          rw [List.append_nil]
          exact ⟨⟨fit, next, one.1⟩, one.2⟩
      | ok target =>
          rw [placing] at one
          have known' : ∀ k, k ∈ g.key target :: placed ↔ k ∈ (given ++ [target]).map g.key := by
            intro k
            rw [List.map_append, List.mem_append, List.mem_cons, known, or_comm, List.map_cons, List.map_nil,
              List.mem_singleton]
          have length : (given ++ [target]).length = given.length + 1 := List.length_append
          have left' : rest = sources.drop (given ++ [target]).length := by
            rw [length, ← List.tail_drop, ← left]
            rfl
          have others := ih (fit.concat next one) known' left' ⟨out.pairs.insert source target,
            g.counterAt given.length, out.warnings ++
              (g.spec.formatPath source (g.counterAt given.length) none g.options.folder).2.map (source, ·)⟩
          rw [length, ← nextCounter_counterAt] at others
          dsimp only [bind, Except.bind]
          generalize g.numberFrom present (sources.map g.key) (g.key target :: placed) _ _ rest = result
            at others ⊢
          cases result with
          | ok numbered =>
            obtain ⟨targets, covers, fit', rfl⟩ := others
            refine ⟨target :: targets, congrArg (· + 1) covers, ?_, ?_⟩
            · rwa [List.append_assoc] at fit'
            · rw [shortfallsFrom_cons, List.append_assoc, List.length_cons, Nat.add_assoc,
                Nat.add_comm 1]
              rfl
          | error failure =>
            obtain ⟨targets, source', stuck⟩ := others
            rw [List.append_assoc] at stuck
            exact ⟨target :: targets, source', stuck⟩

/-- A batch is numbered with destinations that fit it, or fails at a source for which all are
taken. -/
theorem number_fits (present : Path → Bool) (sources : List Path) (unique : g.options.unique = true)
    (counted : g.options.start ≤ maxCounter) :
    match g.number present sources with
    | .ok numbered => ∃ targets, targets.length = sources.length ∧ g.FirstFit present sources targets ∧
        numbered = g.batchOf sources targets
    | .error failure => ∃ targets source, g.Stuck present sources targets source ∧
        failure = .noUniqueName (g.candidate source (g.counterAt targets.length) none)
          g.options.maxDuplicates := by
  have start : g.counterAt 0 = g.options.start := Nat.min_eq_left counted
  have none_known : ∀ k, k ∈ ([] : List PathKey) ↔ k ∈ ([] : List Path).map g.key :=
    fun _ => iff_of_false List.not_mem_nil List.not_mem_nil
  have all_left : sources = sources.drop ([] : List Path).length := rfl
  have outcome := numberFrom_firstFit present sources unique .nil none_known all_left
    ⟨∅, g.options.start, []⟩
  rw [List.length_nil, start] at outcome
  rw [number]
  generalize g.numberFrom present (sources.map g.key) [] g.options.start _ sources = result at outcome ⊢
  cases result with
  | ok numbered =>
      obtain ⟨targets, covers, fit, rfl⟩ := outcome
      refine ⟨targets, covers, fit, ?_⟩
      rw [Nat.zero_add, List.nil_append]
      rfl
  | error failure => exact outcome

/-- A batch that can be fitted is numbered, with the destinations that it was fitted with; and
one that cannot be fails for the first source that is left without a destination. The
destinations of a batch have keys of their own, and none is foreign. -/
theorem number_firstFit (unique : g.options.unique = true) (counted : g.options.start ≤ maxCounter) :
    (∀ numbered, g.number present sources = .ok numbered ↔
      ∃ targets, targets.length = sources.length ∧ g.FirstFit present sources targets ∧
        numbered = g.batchOf sources targets) ∧
    (∀ failure, g.number present sources = .error failure ↔
      ∃ targets source, g.Stuck present sources targets source ∧
        failure = .noUniqueName (g.candidate source (g.counterAt targets.length) none)
          g.options.maxDuplicates) ∧
    ∀ targets, g.FirstFit present sources targets →
      (targets.map g.key).Nodup ∧ ∀ p ∈ targets, ¬g.Foreign present sources p := by
  have outcome := number_fits present sources unique counted
  refine ⟨fun numbered => ⟨fun made => ?_, ?_⟩, fun failure => ⟨fun failed => ?_, ?_⟩,
    fun targets => FirstFit.apart⟩
  · rw [made] at outcome
    exact outcome
  · rintro ⟨targets, covers, fit, rfl⟩
    cases result : g.number present sources with
    | ok numbered =>
        rw [result] at outcome
        obtain ⟨targets', covers', fit', rfl⟩ := outcome
        rw [fit.eq_of_length fit' (covers.trans covers'.symm)]
    | error failure =>
        rw [result] at outcome
        obtain ⟨targets', source, stuck, -⟩ := outcome
        have fewer := stuck.length_le fit
        rw [covers] at fewer
        exact absurd stuck.length_lt (Nat.not_lt.2 fewer)
  · rw [failed] at outcome
    exact outcome
  · rintro ⟨targets, source, stuck, rfl⟩
    cases result : g.number present sources with
    | ok numbered =>
        rw [result] at outcome
        obtain ⟨targets', covers', fit', -⟩ := outcome
        have fewer := stuck.length_le fit'
        rw [covers'] at fewer
        exact absurd stuck.length_lt (Nat.not_lt.2 fewer)
    | error failure =>
        rw [result] at outcome
        obtain ⟨targets', source', stuck', rfl⟩ := outcome
        have same := stuck.fit.eq_of_length stuck'.fit
          (Nat.le_antisymm (stuck'.length_le stuck.fit) (stuck.length_le stuck'.fit))
        subst same
        rw [Option.some.inj (stuck.next.symm.trans stuck'.next)]

/-- Where letter case does not count, the second of two files gets the third name: the plain one
went to the first, and a foreign file has the next. Without a third name there is none for it. -/
theorem number_firstFit_folded :
    let options : NumberingOptions := {
      folder := some (.ofString "/out"), maxDuplicates := 3, caseInsensitive := true }
    let g : Numbering := ⟨.parse ['x', '*'], options, by decide +kernel⟩
    let short : Numbering := ⟨.parse ['x', '*'], { options with maxDuplicates := 2 }, by decide +kernel⟩
    let present : Path → Bool := (· = .ofString "/out/xF_(2).txt")
    let sources : List Path := [.ofString "/a/f.txt", .ofString "/b/F.txt"]
    (∃ targets, g.FirstFit present sources targets ∧
      g.number present sources = .ok (g.batchOf sources targets) ∧
      sources.filterMap (g.batchOf sources targets).pairs.find? =
        [.ofString "/out/xf.txt", .ofString "/out/xF_(3).txt"]) ∧
    ∃ targets source, short.Stuck present sources targets source ∧
      short.candidate source (short.counterAt targets.length) none = .ofString "/out/xF.txt" := by
  intro options g short present sources
  constructor
  · have known : (g.number present sources).map (fun out => sources.filterMap out.pairs.find?) =
        .ok [.ofString "/out/xf.txt", .ofString "/out/xF_(3).txt"] := by decide +kernel
    cases made : g.number present sources with
    | error failure =>
        rw [made] at known
        cases known
    | ok numbered =>
        obtain ⟨targets, -, fit, rfl⟩ := ((number_firstFit rfl (by decide)).1 numbered).1 made
        rw [made] at known
        exact ⟨targets, fit, rfl, Except.ok.inj known⟩
  · have known : (short.number present sources).map (fun _ => ()) =
        .error (.noUniqueName (.ofString "/out/xF.txt") 2) := by decide +kernel
    cases made : short.number present sources with
    | ok numbered =>
        rw [made] at known
        cases known
    | error failure =>
        obtain ⟨targets, source, stuck, rfl⟩ := ((number_firstFit rfl (by decide)).2.1 failure).1 made
        rw [made] at known
        exact ⟨targets, source, stuck, (Failure.noUniqueName.inj (Except.error.inj known)).1⟩

end Renumber.Numbering
