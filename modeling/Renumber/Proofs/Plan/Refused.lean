import Renumber.Proofs.Plan.Numbered

/-!
# What a plan refuses

A plan refuses two sources with one key at once. Else it looks at every destination once, in the
order of the keys: several sources that would go there are refused before a reserved name is, and
that before something on the disk that no source of the batch makes way for. Files that stay are
not looked at, so their names are safe only as far as the disk knows them by the spelling of the
destination.
-/

namespace Renumber.Plan

variable {present : Path → Bool} {ci : Bool} {sourceKeys : List PathKey}
  {pairs : List (Path × Path)} {c : Conflict}

/-- The conflict is what is wrong with the destination of some pairs: `m` is the first of them. -/
def Offends (present : Path → Bool) (ci : Bool) (pairs : List (Path × Path)) (c : Conflict) : Prop :=
  ∃ m more, pairs.filter (fun n => n.2.key ci = m.2.key ci) = m :: more ∧ c.target = m.2 ∧
    c.sources = (m :: more).map Prod.fst ∧
    match c.kind with
    | .shared => more ≠ []
    | .reserved => more = [] ∧ isReserved (Pattern.Spec.nameText m.2) = true
    | .taken => more = [] ∧ isReserved (Pattern.Spec.nameText m.2) = false ∧
        (∀ n ∈ pairs, n.1.key ci ≠ m.2.key ci) ∧ present m.2 = true

/-! ## Sources -/

/-- No source is refused for its key when all keys are different and none was seen before. -/
theorem repeatedSource?_eq_none_iff {seen : List PathKey} :
    repeatedSource? ci seen pairs = none ↔
      (pairs.map fun m => m.1.key ci).Nodup ∧ ∀ m ∈ pairs, m.1.key ci ∉ seen := by
  induction pairs generalizing seen with
  | nil => exact ⟨fun _ => ⟨List.nodup_nil, List.forall_mem_nil _⟩, fun _ => rfl⟩
  | cons x rest ih =>
      rw [repeatedSource?, List.map_cons, List.nodup_cons, List.forall_mem_cons]
      split
      · next known =>
        have member : x.1.key ci ∈ seen := List.contains_iff_mem.1 known
        exact ⟨fun refused => absurd refused (Option.some_ne_none _), fun fresh => absurd member fresh.2.1⟩
      · next unknown =>
        have fresh : x.1.key ci ∉ seen := fun member => unknown (List.contains_iff_mem.2 member)
        rw [ih]
        simp only [List.mem_cons, not_or, List.mem_map, not_exists, not_and]
        constructor
        · rintro ⟨distinct, apart⟩
          exact ⟨⟨fun m member => (apart m member).1, distinct⟩, fresh,
            fun m member => (apart m member).2⟩
        · rintro ⟨⟨other, distinct⟩, -, apart⟩
          exact ⟨distinct, fun m member => ⟨other m member, apart m member⟩⟩

/-- Two sources share a key exactly when the keys are not all different. -/
theorem exists_sharing_iff : (∃ m n, [m, n].Sublist pairs ∧ m.1.key ci = n.1.key ci) ↔
    ¬(pairs.map fun m => m.1.key ci).Nodup := by
  rw [List.Nodup, List.pairwise_map, List.pairwise_iff_forall_sublist]
  simp only [not_forall, not_not, exists_prop]

/-! ## Destinations -/

/-- What is wrong with a destination, in the order in which it is asked. -/
theorem conflictAt?_eq_some_iff {target : Path} {sources : List Path} :
    conflictAt? present ci sourceKeys target sources = some c ↔
      c.target = target ∧ c.sources = sources ∧
        match c.kind with
        | .shared => 1 < sources.length
        | .reserved => sources.length ≤ 1 ∧ isReserved (Pattern.Spec.nameText target) = true
        | .taken => sources.length ≤ 1 ∧ isReserved (Pattern.Spec.nameText target) = false ∧
            target.key ci ∉ sourceKeys ∧ present target = true := by
  have foreign_iff : (!sourceKeys.contains (target.key ci) && present target) = true ↔
      target.key ci ∉ sourceKeys ∧ present target = true := by
    rw [Bool.and_eq_true, Bool.not_eq_true', ← Bool.not_eq_true, List.contains_iff_mem]
  obtain ⟨sources', target', kind⟩ := c
  rw [conflictAt?]
  split
  · next many =>
    constructor
    · rintro ⟨⟩
      exact ⟨rfl, rfl, many⟩
    · rintro ⟨rfl, rfl, why⟩
      cases kind with
      | shared => rfl
      | reserved => exact absurd many (Nat.not_lt.2 why.1)
      | taken => exact absurd many (Nat.not_lt.2 why.1)
  next few =>
  split
  · next device =>
    constructor
    · rintro ⟨⟩
      exact ⟨rfl, rfl, Nat.not_lt.1 few, device⟩
    · rintro ⟨rfl, rfl, why⟩
      cases kind with
      | shared => exact absurd why few
      | reserved => rfl
      | taken => exact absurd (why.2.1.symm.trans device) Bool.false_ne_true
  next usable =>
  split
  · next taken =>
    constructor
    · rintro ⟨⟩
      exact ⟨rfl, rfl, Nat.not_lt.1 few, Bool.eq_false_iff.2 usable, foreign_iff.1 taken⟩
    · rintro ⟨rfl, rfl, why⟩
      cases kind with
      | shared => exact absurd why few
      | reserved => exact absurd why.2 usable
      | taken => rfl
  · next free =>
    refine ⟨fun nothing => absurd nothing.symm (Option.some_ne_none _), ?_⟩
    rintro ⟨rfl, rfl, why⟩
    cases kind with
    | shared => exact absurd why few
    | reserved => exact absurd why.2 usable
    | taken => exact absurd (foreign_iff.2 why.2.2) free

/-- The conflicts are exactly what is wrong with the destinations. -/
theorem mem_conflicts_iff :
    c ∈ conflicts present ci (pairs.map fun m => m.1.key ci) pairs ↔ Offends present ci pairs c := by
  rw [mem_conflicts_iff_group, Offends]
  refine exists_congr fun m => exists_congr fun more => and_congr_right fun _ => ?_
  rw [conflictAt?_eq_some_iff]
  refine and_congr_right fun _ => and_congr_right fun _ => ?_
  have alone : ((m :: more).map Prod.fst).length ≤ 1 ↔ more = [] := by
    rw [List.length_map, List.length_cons, Nat.succ_le_succ_iff, Nat.le_zero, List.length_eq_zero_iff]
  have foreign : m.2.key ci ∉ (pairs.map fun n => n.1.key ci) ↔
      ∀ n ∈ pairs, n.1.key ci ≠ m.2.key ci := by
    rw [List.mem_map]
    exact ⟨fun none n member same => none ⟨n, member, same⟩,
      fun none ⟨n, member, same⟩ => none n member same⟩
  cases c.kind with
  | shared => exact (Nat.not_le.symm.trans (not_congr alone))
  | reserved => exact and_congr_left' alone
  | taken => exact and_congr alone (and_congr_right fun _ => and_congr_left' foreign)

/-- Conflicts come in the order of the keys of their destinations. -/
theorem conflicts_sorted : (conflicts present ci sourceKeys pairs).Pairwise fun c d =>
    compare (c.target.key ci) (d.target.key ci) = .lt := by
  have keyed : (byTarget ci pairs).entries.Pairwise fun e e' =>
      compare (e.2.1.key ci) (e'.2.1.key ci) = .lt := by
    refine (byTarget ci pairs).sorted.imp_of_mem fun {e e'} member member' before => ?_
    obtain ⟨m, more, -, value, key⟩ := group_of_mem_byTarget member
    obtain ⟨m', more', -, value', key'⟩ := group_of_mem_byTarget member'
    rw [value, value', ← key, ← key']
    exact before
  refine keyed.filterMap _ fun e e' before c found d found' => ?_
  rw [(conflictAt?_eq_some_iff.1 found).1, (conflictAt?_eq_some_iff.1 found').1]
  exact before

/-! ## Plans -/

section

variable {pairs : PathPairs} {plan : RenamePlan}

theorem withConflicts_of_repeated {source : Path}
    (repeated : repeatedSource? ci [] (changing pairs) = some source) :
    withConflicts present ci pairs = .error (.notDistinct source) := by
  rw [withConflicts]
  simp only [repeated]

variable (present) in
/-- Where no source is refused, the plan is made of the steps that are chosen or of the conflicts. -/
theorem withConflicts_cases (distinct : repeatedSource? ci [] (changing pairs) = none) :
    let keys := (changing pairs).map fun m => m.1.key ci
    (conflicts present ci keys (changing pairs) = [] ∧
      ((∃ steps, withConflicts present ci pairs = .ok ⟨steps, [], ci⟩) ∨
        ∃ target, withConflicts present ci pairs = .error (.noIntermediate target))) ∨
    conflicts present ci keys (changing pairs) ≠ [] ∧
      withConflicts present ci pairs = .ok ⟨[], conflicts present ci keys (changing pairs), ci⟩ := by
  intro keys
  rw [withConflicts]
  simp only [distinct]
  split
  · next clear =>
    refine .inl ⟨clear, ?_⟩
    cases chosen : chooseSteps present ci keys
      ⟨keys ++ (changing pairs).map fun m => m.2.key ci, [], []⟩ (changing pairs) with
    | error failure =>
        obtain ⟨target, rfl⟩ := noIntermediate_of_chooseSteps chosen
        exact .inr ⟨target, rfl⟩
    | ok parts => exact .inl ⟨parts.1 ++ parts.2, rfl⟩
  · next found => exact .inr ⟨found, rfl⟩

/-- The conflicts of a plan, which has no steps if there are any. -/
theorem withConflicts_eq_ok (planned : withConflicts present ci pairs = .ok plan) :
    plan.conflicts = conflicts present ci ((changing pairs).map fun m => m.1.key ci) (changing pairs) ∧
      (plan.conflicts ≠ [] → plan.steps = []) := by
  cases distinct : repeatedSource? ci [] (changing pairs) with
  | some source =>
      rw [withConflicts_of_repeated distinct] at planned
      cases planned
  | none =>
      obtain ⟨clear, ⟨steps, made⟩ | ⟨target, made⟩⟩ | ⟨-, made⟩ :=
        withConflicts_cases present distinct
      · cases made.symm.trans planned
        exact ⟨clear.symm, fun found => absurd rfl found⟩
      · cases made.symm.trans planned
      · cases made.symm.trans planned
        exact ⟨rfl, fun _ => rfl⟩

/-- A file stays when its destination is another spelling of its path at most. -/
theorem mem_changing_or_same {e : Path × Path} (member : e ∈ pairs.entries) :
    e ∈ changing pairs ∨ e.1.same e.2 = true := by
  cases stays : e.1.same e.2 with
  | true => exact .inr rfl
  | false => exact .inl (List.mem_filter.2 ⟨member, by simpa using stays⟩)

theorem not_same_of_changing {m : Path × Path} (member : m ∈ changing pairs) : m.1.same m.2 = false := by
  simpa using (List.mem_filter.1 member).2

/-- One source has one entry. -/
theorem eq_of_source_eq {e e' : Path × Path} (member : e ∈ pairs.entries)
    (member' : e' ∈ pairs.entries) (same : e.1.components = e'.1.components) : e = e' :=
  List.inj_on_of_nodup_map pairs.components_nodup member member' same

theorem isDistinct_iff : isDistinct false pairs = true ↔
    (pairs.entries.map fun e => e.2.components).Nodup := by
  rw [isDistinct, Bool.and_eq_true, decide_eq_true_eq, decide_eq_true_eq]
  exact and_iff_right pairs.components_nodup

/-- Without conflicts all destinations are different, those of files that stay included, as far as the
disk finds a destination where the source is that it is another spelling of. -/
theorem isDistinct_iff_of_conflicts_eq_nil
    (clear : conflicts present false ((changing pairs).map fun m => m.1.key false) (changing pairs) = [])
    (there : ∀ e ∈ pairs.entries, present e.1 = true) :
    isDistinct false pairs = true ↔ ∀ m ∈ changing pairs, ∀ e ∈ pairs.entries,
      e.1.same e.2 = true → m.2.same e.1 = true → present m.2 = present e.1 := by
  have listed : ∀ {m}, m ∈ changing pairs → m ∈ pairs.entries := List.mem_of_mem_filter
  rw [isDistinct_iff]
  constructor
  · intro distinct m changes e member stays taken
    have one : m = e := List.inj_on_of_nodup_map distinct (listed changes) member
      ((Path.same_iff.1 taken).trans (Path.same_iff.1 stays))
    rw [one] at changes
    cases (not_same_of_changing changes).symm.trans stays
  · intro alike
    -- A file does not come to where another one stays.
    have apart : ∀ m ∈ changing pairs, ∀ e ∈ pairs.entries, e.1.same e.2 = true →
        m.2.components ≠ e.2.components := by
      intro m changes e member stays same
      have taken : m.2.components = e.1.components := same.trans (Path.same_iff.1 stays).symm
      obtain leaves | absent := (of_conflicts_eq_nil clear changes).2
      · obtain ⟨n, changes', key⟩ := List.mem_map.1 leaves
        rw [eq_of_source_eq (listed changes') member (key.trans taken)] at changes'
        cases (not_same_of_changing changes').symm.trans stays
      · have found := alike m changes e member stays (Path.same_iff.2 taken)
        rw [absent, there e member] at found
        cases found
    refine List.Nodup.map_on (fun e member e' member' same => ?_)
      (pairs.components_nodup.of_map _)
    obtain changes | stays := mem_changing_or_same member
    · obtain changes' | stays' := mem_changing_or_same member'
      · exact List.inj_on_of_nodup_map (targetKeys_nodup clear) changes changes' same
      · exact absurd same (apart e changes e' member' stays')
    · obtain changes' | stays' := mem_changing_or_same member'
      · exact absurd same.symm (apart e' changes' e member stays)
      · exact eq_of_source_eq member member'
          ((Path.same_iff.1 stays).trans (same.trans (Path.same_iff.1 stays').symm))

end

/-- Planning fails for two sources with one key, and for no other reason but a lack of intermediate
names. Else the conflicts are, in the order of keys, exactly what is wrong with the destinations,
and if there are any, there are no steps. Without conflicts no two files of the map have one
destination, if the disk finds destinations where it finds the files that stay there. -/
theorem withConflicts_reports (present : Path → Bool) (ci : Bool) (pairs : PathPairs) :
    ((∃ source, withConflicts present ci pairs = .error (.notDistinct source)) ↔
      ∃ m n, [m, n].Sublist (changing pairs) ∧ m.1.key ci = n.1.key ci) ∧
    (∀ plan, withConflicts present ci pairs = .ok plan →
      (∀ c, c ∈ plan.conflicts ↔ Offends present ci (changing pairs) c) ∧
      (plan.conflicts.Pairwise fun c d => compare (c.target.key ci) (d.target.key ci) = .lt) ∧
      (plan.conflicts ≠ [] → plan.steps = []) ∧
      (plan.conflicts = [] → ci = false → (∀ e ∈ pairs.entries, present e.1 = true) →
        (isDistinct ci pairs = true ↔ ∀ m ∈ changing pairs, ∀ e ∈ pairs.entries,
          e.1.same e.2 = true → m.2.same e.1 = true → present m.2 = present e.1))) ∧
    ∀ failure, withConflicts present ci pairs = .error failure →
      (∃ source, failure = .notDistinct source) ∨
        (∃ target, failure = .noIntermediate target) ∧ ∀ c, ¬Offends present ci (changing pairs) c := by
  refine ⟨?_, fun plan planned => ?_, fun failure failed => ?_⟩
  · rw [exists_sharing_iff]
    cases distinct : repeatedSource? ci [] (changing pairs) with
    | some source =>
        refine iff_of_true ⟨source, withConflicts_of_repeated distinct⟩ fun nodup => ?_
        rw [repeatedSource?_eq_none_iff.2 ⟨nodup, fun _ _ => List.not_mem_nil⟩] at distinct
        cases distinct
    | none =>
        refine iff_of_false ?_ (not_not.2 (repeatedSource?_eq_none_iff.1 distinct).1)
        rintro ⟨source, failed⟩
        obtain ⟨-, ⟨steps, made⟩ | ⟨target, made⟩⟩ | ⟨-, made⟩ :=
          withConflicts_cases present distinct
        all_goals cases made.symm.trans failed
  · obtain ⟨all, no_steps⟩ := withConflicts_eq_ok planned
    refine ⟨fun c => ?_, ?_, no_steps, ?_⟩
    · rw [all, mem_conflicts_iff]
    · rw [all]
      exact conflicts_sorted
    · rintro clear rfl there
      exact isDistinct_iff_of_conflicts_eq_nil (all ▸ clear) there
  · cases distinct : repeatedSource? ci [] (changing pairs) with
    | some source =>
        exact .inl ⟨source, Except.error.inj (failed.symm.trans (withConflicts_of_repeated distinct))⟩
    | none =>
        obtain ⟨clear, ⟨steps, made⟩ | ⟨target, made⟩⟩ | ⟨-, made⟩ :=
          withConflicts_cases present distinct
        · cases made.symm.trans failed
        · refine .inr ⟨⟨target, Except.error.inj (failed.symm.trans made)⟩, fun c offends => ?_⟩
          have listed := mem_conflicts_iff.2 offends
          rw [clear] at listed
          cases listed
        · cases made.symm.trans failed

/-- Five files of which two are to get one name, one a reserved name, and one the name of the fifth. -/
def mixedPairs : PathPairs :=
  .ofList [(.ofString "a", .ofString "X"), (.ofString "b", .ofString "x"),
    (.ofString "c", .ofString "nul.txt"), (.ofString "d", .ofString "e")]

theorem withConflicts_reports_mixed :
    let w := World.sample [("a", ""), ("b", ""), ("c", ""), ("d", ""), ("e", "")]
    ∃ plan, withConflicts w.present true mixedPairs = .ok plan ∧
      plan.conflicts.map Conflict.kind = [.taken, .reserved, .shared] ∧ plan.steps = [] ∧
      ∀ c ∈ plan.conflicts, Offends w.present true (changing mixedPairs) c := by
  intro w
  have planned : withConflicts w.present true mixedPairs = .ok ⟨[],
      [⟨[.ofString "d"], .ofString "e", .taken⟩, ⟨[.ofString "c"], .ofString "nul.txt", .reserved⟩,
        ⟨[.ofString "a", .ofString "b"], .ofString "X", .shared⟩], true⟩ := by
    decide +kernel
  obtain ⟨exactly, -, no_steps, -⟩ := (withConflicts_reports w.present true mixedPairs).2.1 _ planned
  exact ⟨_, planned, rfl, no_steps (List.cons_ne_nil _ _), fun c member => (exactly c).1 member⟩

/-- A file stays and another one is to go where it is, by a path that ends in a separator. Nothing is
found there, so that nothing is refused. -/
theorem not_isDistinct_slashed :
    let w := World.sample [("a", "first"), ("b", "second")]
    let pairs : PathPairs :=
      .ofList [(.ofString "a", .ofString "a"), (.ofString "b", .ofString "a/")]
    (∀ e ∈ pairs.entries, w.present e.1 = true) ∧
      withConflicts w.present false pairs =
        .ok ⟨[⟨.ofString "b", .ofString "a/", .direct⟩], [], false⟩ ∧
      isDistinct false pairs = false := by
  refine ⟨?_, ?_, ?_⟩
  all_goals decide +kernel

end Renumber.Plan
