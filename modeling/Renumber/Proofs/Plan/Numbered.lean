import Renumber.Proofs.Numbering.Filled
import Renumber.Proofs.Path.Key
import Renumber.Proofs.Plan.Conflict
import Renumber.Proofs.World.Sample

/-!
# Plans of numberings

A numbering that keeps destinations apart and clear of other files leaves a plan little to
refuse. No two sources share a destination. A destination where something stands is the place of
a source; that source leaves it, since a source that stayed would have this destination as well.
Only where the empty path was numbered nothing is wanted for a source, so that it stays.
-/

namespace Renumber

namespace Plan

variable {present : Path → Bool} {ci : Bool} {sourceKeys : List PathKey}
  {pairs : List (Path × Path)}

/-! ## What a plan refuses -/

/-- Where no two destinations share a key, every conflict is about one pair: its destination is
reserved, or something from outside stands there. -/
theorem conflict_of_nodup (distinct : (pairs.map fun m => m.2.key ci).Nodup) {c : Conflict}
    (found : c ∈ conflicts present ci sourceKeys pairs) :
    ∃ m ∈ pairs, c.sources = [m.1] ∧ c.target = m.2 ∧
      (c.kind = .reserved ∨
        c.kind = .taken ∧ m.2.key ci ∉ sourceKeys ∧ present m.2 = true) := by
  obtain ⟨m, more, all, conflict⟩ := mem_conflicts_iff_group.1 found
  have in_group : ∀ n ∈ m :: more, n ∈ pairs ∧ n.2.key ci = m.2.key ci := by
    intro n in_all
    rw [← all] at in_all
    exact (List.mem_filter.1 in_all).imp_right of_decide_eq_true
  -- a second pair of the group would have the same key
  have alone : more = [] := by
    cases more with
    | nil => rfl
    | cons n more =>
        have sub : (m :: n :: more).Sublist pairs := all ▸ List.filter_sublist
        obtain ⟨apart, -⟩ := List.nodup_cons.1 ((sub.map fun m => m.2.key ci).nodup distinct)
        have second := (in_group n (by simp)).2
        exact absurd (List.mem_map.2 ⟨n, List.mem_cons_self, second⟩) apart
  subst alone
  refine ⟨m, (in_group m List.mem_cons_self).1, ?_⟩
  simp only [conflictAt?, List.map_cons, List.map_nil, List.length_singleton, gt_iff_lt, lt_self_iff_false,
    ↓reduceIte] at conflict
  split at conflict
  · cases conflict
    exact ⟨rfl, rfl, .inl rfl⟩
  · split at conflict
    · next taken =>
      cases conflict
      refine ⟨rfl, rfl, .inr ⟨rfl, ?_⟩⟩
      simpa using taken
    · cases conflict

/-- A source is refused for its key if the key was seen, or an earlier source has it. -/
theorem exists_of_repeatedSource? {seen : List PathKey} {source : Path}
    (repeated : repeatedSource? ci seen pairs = some source) :
    ∃ m ∈ pairs, m.1 = source ∧
      (source.key ci ∈ seen ∨ ∃ n, [n, m].Sublist pairs ∧ n.1.key ci = source.key ci) := by
  induction pairs generalizing seen with
  | nil => cases repeated
  | cons x rest ih =>
      rw [repeatedSource?] at repeated
      split at repeated
      · next known =>
        cases repeated
        exact ⟨x, List.mem_cons_self, rfl, .inl (List.contains_iff_mem.1 known)⟩
      · obtain ⟨m, member, same, seen_before | ⟨n, before, equal⟩⟩ := ih repeated
        · refine ⟨m, List.mem_cons_of_mem _ member, same, ?_⟩
          obtain own | older := List.mem_cons.1 seen_before
          · exact .inr ⟨x, (List.singleton_sublist.2 member).cons_cons x, own.symm⟩
          · exact .inl older
        · exact ⟨m, List.mem_cons_of_mem _ member, same, .inr ⟨n, before.cons x, equal⟩⟩

theorem eq_error_of_map {ε α β : Type} {f : α → β} {x : Except ε α} {e : ε}
    (failed : x.map f = .error e) : x = .error e := by
  cases x with
  | error e' => exact congrArg Except.error (Except.error.inj failed)
  | ok a => cases failed

/-- Steps can only be missing because intermediate names are. -/
theorem noIntermediate_of_chooseSteps {o : Occupancy} {failure : Failure}
    (failed : chooseSteps present ci sourceKeys o pairs = .error failure) :
    ∃ target, failure = .noIntermediate target := by
  induction pairs generalizing o with
  | nil => cases failed
  | cons m rest ih =>
      rw [chooseSteps] at failed
      dsimp only at failed
      split at failed
      · split at failed
        · cases failed
          exact ⟨_, rfl⟩
        · exact ih (eq_error_of_map failed)
      · exact ih (eq_error_of_map failed)

end Plan

namespace Numbering

open Plan

variable {g : Numbering} {present : Path → Bool} {ws ws' : WorkingSet} {numbered : Numbered}

/-- The pairs that are planned of a numbering: what is wanted is another path. -/
theorem mem_changing {m : Path × Path} :
    m ∈ changing (numbered.pairs.filter RenameItems.isModified) ↔
      m ∈ numbered.pairs.entries ∧ RenameItems.isModified m.1 m.2 = true ∧ m.1.same m.2 = false := by
  rw [changing, List.mem_filter, PathMap.filter, List.mem_filter, Bool.not_eq_true', and_assoc]

/-- The entries of a numbering: every source has one, and their destinations are apart. -/
structure Covers (g : Numbering) (present : Path → Bool) (sources : List Path) (pairs : PathPairs) :
    Prop where
  known : ∀ s ∈ sources, ∃ e ∈ pairs.entries, e.1.same s = true
  source : ∀ e ∈ pairs.entries, e.1 ∈ sources
  inj : ∀ e ∈ pairs.entries, ∀ e' ∈ pairs.entries, g.key e.2 = g.key e'.2 → e = e'
  clear : ∀ e ∈ pairs.entries, g.key e.2 ∈ sources.map g.key ∨ present e.2 = false

theorem covers_of_number (unique : g.options.unique = true) (checks : g.options.checkExisting = true)
    {sources : List Path} (made : g.number present sources = .ok numbered) :
    g.Covers present sources numbered.pairs := by
  obtain ⟨pairs, rfl, all, apart⟩ := number_ok unique checks made
  rw [all]
  constructor
  · intro s member
    obtain ⟨x, in_pairs, rfl⟩ := List.mem_map.1 member
    obtain ⟨e, found⟩ := PathMap.findItem?_ofList in_pairs
    obtain ⟨there, same⟩ := PathMap.mem_of_findItem? found
    exact ⟨e, there, same⟩
  · exact fun e member => PathMap.mem_keys_ofList (List.mem_map_of_mem member)
  · intro e member e' member' equal
    obtain ⟨x, in_pairs, same, value⟩ := PathMap.mem_ofList member
    obtain ⟨x', in_pairs', same', value'⟩ := PathMap.mem_ofList member'
    rw [← value, ← value'] at equal
    obtain rfl := List.inj_on_of_nodup_map apart.distinct in_pairs in_pairs' equal
    have components := (Path.same_iff.1 same).symm.trans (Path.same_iff.1 same')
    exact List.inj_on_of_nodup_map (PathMap.components_nodup _) member member' components
  · intro e member
    obtain ⟨x, in_pairs, -, value⟩ := PathMap.mem_ofList member
    exact value ▸ apart.clear x in_pairs

/-- A source at whose place another one's destination is leaves it, unless the empty path was
numbered for it. -/
theorem Covers.leaves {sources : List Path} {pairs : PathPairs} (covers : g.Covers present sources pairs)
    {m : Path × Path} (member : m ∈ pairs.entries) (moves : m.1.same m.2 = false) {s : Path}
    (at_source : s ∈ sources) (key : g.key s = g.key m.2) :
    pairs.find? s = some ⟨[]⟩ ∨ ∃ e ∈ pairs.entries,
      RenameItems.isModified e.1 e.2 = true ∧ e.1.same e.2 = false ∧ g.key e.1 = g.key m.2 := by
  obtain ⟨e, there, same⟩ := covers.known s at_source
  have own : g.key e.1 = g.key m.2 := (Path.key_congr (Path.same_iff.1 same) _).trans key
  have leaves : e.1.same e.2 = false := by
    -- a source that stays has the destination, which no other one has
    rw [Bool.eq_false_iff]
    intro stays
    have equal : g.key e.2 = g.key m.2 := (Path.key_congr (Path.same_iff.1 stays) _).symm.trans own
    rw [covers.inj e there m member equal, moves] at stays
    cases stays
  by_cases empty : e.2.isEmpty = true
  · left
    obtain ⟨p, ⟨bytes⟩⟩ := e
    obtain rfl : bytes = [] := List.isEmpty_iff.1 empty
    rw [PathMap.find?, ← pairs.findItem?_congr same, PathMap.findItem?_of_mem there]
    rfl
  · right
    refine ⟨e, there, ?_, leaves, own⟩
    have other : e.2 ≠ e.1 := by
      intro equal
      rw [equal, Path.same_refl] at leaves
      cases leaves
    rw [RenameItems.isModified, Bool.eq_false_iff.2 empty]
    simpa using other

/-- A plan of a numbering that keeps destinations apart and clear of other files: a destination
is refused only for a reserved name, or because it is the place of a source for which the empty
path was numbered. Planning fails only where two sources share a key or intermediate names run
out. -/
theorem plan_filled (unique : g.options.unique = true) (checks : g.options.checkExisting = true)
    (own : ws.renameItems.entries.map Prod.fst =
      (RenameItems.ofSources ws.sources).entries.map Prod.fst)
    (filled : (g.fill present).run.run ws = (.ok numbered, ws')) :
    (∀ plan, withConflicts present g.options.caseInsensitive ws'.renameItems.pairs = .ok plan →
      ∀ c ∈ plan.conflicts, c.kind = .reserved ∨
        c.kind = .taken ∧ ∃ s ∈ ws.sources, g.key s = g.key c.target ∧
          numbered.pairs.find? s = some ⟨[]⟩) ∧
    (∀ failure, withConflicts present g.options.caseInsensitive ws'.renameItems.pairs = .error failure →
      (∃ a ∈ ws.sources, ∃ b ∈ ws.sources, a.same b = false ∧ g.key a = g.key b ∧
        failure = .notDistinct b) ∨ ∃ target, failure = .noIntermediate target) := by
  obtain ⟨made, wishes⟩ := fill_ok own filled
  have covers := covers_of_number unique checks made
  rw [wishes, RenameItems.pairs]
  have in_entries : ∀ {m}, m ∈ changing (numbered.pairs.filter RenameItems.isModified) →
      m ∈ numbered.pairs.entries := fun member => (mem_changing.1 member).1
  have distinct : ((changing (numbered.pairs.filter RenameItems.isModified)).map
      fun m => m.2.key g.options.caseInsensitive).Nodup := by
    have sub : (changing (numbered.pairs.filter RenameItems.isModified)).Nodup :=
      ((numbered.pairs.components_nodup.of_map _).filter _).filter _
    exact List.Nodup.map_on (fun m member m' member' =>
      covers.inj m (in_entries member) m' (in_entries member')) sub
  constructor
  · intro plan planned c found
    rw [withConflicts] at planned
    dsimp only at planned
    split at planned
    · cases planned
    split at planned
    · cases chosen : chooseSteps present g.options.caseInsensitive _ _
        (changing (numbered.pairs.filter RenameItems.isModified)) with
      | error failure =>
          rw [chosen] at planned
          cases planned
      | ok parts =>
          rw [chosen] at planned
          cases planned
          cases found
    · cases planned
      obtain ⟨m, member, -, target, reserved | ⟨taken, foreign, stands⟩⟩ := conflict_of_nodup distinct found
      · exact .inl reserved
      · refine .inr ⟨taken, ?_⟩
        obtain ⟨entry, -, moves⟩ := mem_changing.1 member
        have at_source := (covers.clear m entry).resolve_right (by rw [stands]; exact nofun)
        obtain ⟨s, known, key⟩ := List.mem_map.1 at_source
        obtain empty | ⟨e, there, modified, leaves, same⟩ := covers.leaves entry moves known key
        · exact ⟨s, known, target ▸ key, empty⟩
        · have gone := mem_changing.2 ⟨there, modified, leaves⟩
          exact absurd (List.mem_map.2 ⟨e, gone, same⟩) foreign
  · intro failure failed
    rw [withConflicts] at failed
    dsimp only at failed
    split at failed
    · next source repeated =>
      cases failed
      left
      obtain ⟨m, member, rfl, seen | ⟨n, before, same⟩⟩ := exists_of_repeatedSource? repeated
      · cases seen
      · have both := before.subset
        have first := in_entries (both List.mem_cons_self)
        refine ⟨n.1, covers.source n first, m.1, covers.source m (in_entries member), ?_, same, rfl⟩
        have sorted := ((numbered.pairs.filter RenameItems.isModified).sorted.filter _).sublist before
        exact Path.compare_lt_irrefl ((List.pairwise_cons.1 sorted).1 m List.mem_cons_self)
    · split at failed
      · exact .inr (noIntermediate_of_chooseSteps (eq_error_of_map failed))
      · cases failed

/-- Three names that are cut down to their first letter, which is the name of one of them. -/
theorem plan_filled_shortened :
    let g : Numbering := ⟨.parse ['?'], {}, by decide +kernel⟩
    let w := World.sample [("ab", ""), ("ac", ""), ("a", "")]
    let ws := WorkingSet.ofSources [.ofString "/w/ab", .ofString "/w/ac", .ofString "/w/a"]
    ∃ numbered ws', (g.fill w.present).run.run ws = (.ok numbered, ws') ∧
      ∀ plan, withConflicts w.present false ws'.renameItems.pairs = .ok plan →
        ∀ c ∈ plan.conflicts, c.kind = .reserved ∨
          c.kind = .taken ∧ ∃ s ∈ ws.sources, g.key s = g.key c.target ∧
            numbered.pairs.find? s = some ⟨[]⟩ := by
  intro g w ws
  have succeeds : ((g.fill w.present).run.run ws).1.isOk = true := by decide +kernel
  cases filled : (g.fill w.present).run.run ws with
  | mk result ws' =>
      cases result with
      | error failure =>
          rw [filled] at succeeds
          cases succeeds
      | ok numbered => exact ⟨numbered, ws', rfl, (plan_filled rfl rfl rfl filled).1⟩

/-- Nothing is wanted for the root, which keeps its name; so it stands where its other spelling
is to go. -/
theorem not_plan_filled_root :
    let g : Numbering := ⟨.parse ['*'], {}, by decide +kernel⟩
    let w := World.sample []
    let out := (g.fill w.present).run.run (.ofSources [.ofString "/", .ofString "/.."])
    g.options.unique = true ∧ g.options.checkExisting = true ∧ out.1.isOk = true ∧
      withConflicts w.present g.options.caseInsensitive out.2.renameItems.pairs =
        .ok ⟨[], [⟨[.ofString "/.."], .ofString "/", .taken⟩], false⟩ := by
  refine ⟨rfl, rfl, ?_, ?_⟩
  · decide +kernel
  · decide +kernel

end Numbering

end Renumber
