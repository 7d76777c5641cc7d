import Renumber.Proofs.Numbering.Again
import Renumber.Proofs.Plan.Again
import Renumber.Proofs.Plan.Numbered

/-!
# Renumbering what was renumbered

Without wildcards in the pattern, numbering is done once and for all. When the plan of a
numbering was carried out, what was in the way of the batch is in the way again, and every
destination that was chosen is now the place of a source. So numbering the files at their
destinations gives each its own path again, and nothing is left to do.
-/

namespace Renumber

namespace Plan

variable {pairs : PathPairs} {plan : RenamePlan} {w w' : World} {paths : List Path} {p : Path}

/-- Running a plan on a flat file system moves files at once. -/
theorem carried_of_renameAll (planned : strict w.present false pairs = .ok plan)
    (flat : w.Flat plan.paths) (there : ∀ m ∈ changing pairs, w.present m.1 = true)
    (done : (World.renameAll plan.moves).run.run w = (.ok (), w')) :
    World.Shuffles ∅ w w' ∧
      FileMap.Carried ((changing pairs).map (Prod.map w.locationOf w.locationOf)) w.files w'.files := by
  obtain ⟨files', possible, carried⟩ := exists_run_moves planned flat there
  have targets : ∀ m ∈ plan.moves, w.FlatAt m.2 := by
    intro m in_moves
    obtain ⟨s, member, rfl⟩ := List.mem_map.1 in_moves
    exact flat.flatAt (RenamePlan.mem_paths member).2
  obtain ⟨after, ran, -, rfl, -, shuffles⟩ := World.renameAll_of_run ∅ flat.tree targets possible
  obtain rfl : after = w' := congrArg Prod.snd (ran.symm.trans done)
  exact ⟨shuffles, carried⟩

/-- What is neither at a source nor at a destination stays. -/
theorem present_of_renameAll (planned : strict w.present false pairs = .ok plan)
    (flat : w.Flat plan.paths) (spread : w.Spread paths) (listed : plan.paths ⊆ paths)
    (there : ∀ m ∈ changing pairs, w.present m.1 = true)
    (done : (World.renameAll plan.moves).run.run w = (.ok (), w')) (member : p ∈ paths)
    (aside : ∀ m ∈ changing pairs, m.1.components ≠ p.components ∧ m.2.components ≠ p.components) :
    w'.present p = w.present p := by
  obtain ⟨shuffles, carried⟩ := carried_of_renameAll planned flat there done
  have place := spread.place_eq member
  have place' : w'.place? p = some (w.locationOf p) := shuffles.place? ▸ place
  have stays : w'.files (w.locationOf p) = w.files (w.locationOf p) := by
    refine carried.other _ fun n in_moves => ?_
    obtain ⟨m, changes, rfl⟩ := List.mem_map.1 in_moves
    obtain ⟨source, target⟩ := listed_of_strict planned changes
    obtain ⟨not_source, not_target⟩ := aside m changes
    exact ⟨mt (spread.locationOf_eq_iff (listed source) member).1 not_source,
      mt (spread.locationOf_eq_iff (listed target) member).1 not_target⟩
  -- a folder or a link is where it was, too
  have shape := shuffles.ways.shape?_eq stays
  rw [World.present, World.present, Disk.present_of_place place', Disk.present_of_place place,
    ← Option.isSome_map (f := Entry.shape), ← Option.isSome_map (f := Entry.shape)]
  exact congrArg Option.isSome shape

end Plan

/-- The destinations of sources, in the order of the sources. -/
def Numbered.targets (numbered : Numbered) (sources : List Path) : List Path :=
  sources.filterMap numbered.pairs.find?

namespace Numbering

open Plan

variable {g : Numbering} {pattern : List Char} {w w' : World} {sources : List Path}
  {numbered : Numbered} {plan : RenamePlan} {pairs : List (Path × Path)}

/-- The destinations that may be tried and are taken by what is not of the batch. -/
def foreign (g : Numbering) (w : World) (sources : List Path) : List Path :=
  (g.candidates g.options.start sources).filter (g.isForeign w.present (sources.map g.key))

/-- In a batch of different sources each is found with its destination. -/
theorem find?_of_batch (all : numbered.pairs = .ofList pairs)
    (distinct : (pairs.map fun e => e.1.components).Nodup) {e : Path × Path} (member : e ∈ pairs) :
    numbered.pairs.find? e.1 = some e.2 := by
  rw [all, PathMap.find?, PathMap.findItem?_of_mem ((PathMap.mem_ofList_iff distinct).2 member)]
  rfl

theorem targets_eq (all : numbered.pairs = .ofList pairs)
    (distinct : (pairs.map fun e => e.1.components).Nodup) :
    numbered.targets (pairs.map Prod.fst) = pairs.map Prod.snd := by
  rw [Numbered.targets, List.filterMap_map, ← List.filterMap_eq_map]
  exact List.filterMap_congr fun e member => find?_of_batch all distinct member

/-- Numbering sources that are at their destinations wants nothing for them. -/
theorem pairs_eq_empty (all : numbered.pairs = .ofList (pairs.map fun e => (e.2, e.2)))
    (distinct : ((pairs.map fun e => (e.2, e.2)).map fun e => e.1.components).Nodup) :
    RenameItems.pairs numbered.pairs = ∅ := by
  apply PathMap.ext_entries
  refine List.filter_eq_nil_iff.2 fun e member => ?_
  rw [all, PathMap.mem_ofList_iff distinct] at member
  obtain ⟨x, -, rfl⟩ := List.mem_map.1 member
  simp [RenameItems.isModified]

section

variable (exact_case : g.options.caseInsensitive = false)
  (all : numbered.pairs = .ofList pairs) (distinct : (pairs.map fun e => e.1.components).Nodup)
  (apart : g.Apart w.present ((pairs.map Prod.fst).map g.key) [] pairs)
  (written : ∀ e ∈ pairs, e.2.isEmpty = false)
  (planned : strict w.present false (RenameItems.pairs numbered.pairs) = .ok plan)
  (flat : w.Flat plan.paths) (spread : w.Spread (plan.paths ++ g.foreign w (pairs.map Prod.fst)))

include exact_case in
theorem key_eq (p : Path) : g.key p = p.components := by
  rw [key, exact_case, Path.key_false]

include all distinct written in
/-- What is planned of a batch: the sources for which another path was chosen. -/
theorem mem_changing_of_batch {m : Path × Path} :
    m ∈ changing (RenameItems.pairs numbered.pairs) ↔ m ∈ pairs ∧ m.1.same m.2 = false := by
  rw [RenameItems.pairs, mem_changing, all, PathMap.mem_ofList_iff distinct]
  constructor
  · rintro ⟨member, -, moves⟩
    exact ⟨member, moves⟩
  · rintro ⟨member, moves⟩
    refine ⟨member, ?_, moves⟩
    have other : m.2 ≠ m.1 := by
      intro equal
      rw [equal, Path.same_refl] at moves
      cases moves
    rw [RenameItems.isModified, written m member]
    simpa using other

include exact_case all distinct apart written planned spread in
/-- No destination is at a place that is taken by what is not of the batch. -/
theorem ne_of_isForeign {p : Path} (tried : p ∈ plan.paths ++ g.foreign w (pairs.map Prod.fst))
    (foreign : g.isForeign w.present ((pairs.map Prod.fst).map g.key) p = true) :
    ∀ e ∈ pairs, e.2.components ≠ p.components := by
  rw [isForeign, Bool.and_eq_true, Bool.and_eq_true, Bool.not_eq_true', ← Bool.not_eq_true,
    List.contains_iff_mem] at foreign
  obtain ⟨⟨-, outside⟩, stands⟩ := foreign
  intro e member equal
  have one_key : g.key e.2 = g.key p := by rw [key_eq exact_case, key_eq exact_case, equal]
  obtain in_sources | free := apart.clear e member
  · exact outside (one_key ▸ in_sources)
  · have moves : e.1.same e.2 = false := by
      rw [Bool.eq_false_iff, ne_eq, Path.same_iff]
      intro stays
      apply outside
      rw [← one_key, key_eq exact_case, ← stays, ← key_eq exact_case]
      exact List.mem_map_of_mem (List.mem_map_of_mem member)
    have changes := (mem_changing_of_batch all distinct written).2 ⟨member, moves⟩
    rw [spread.present_congr (List.mem_append_left _ (listed_of_strict planned changes).2) tried equal,
      stands] at free
    cases free

include exact_case all distinct apart written planned flat spread in
/-- What was in the way is in the way again. -/
theorem isForeign_again (there : ∀ e ∈ pairs, w.present e.1 = true)
    (done : (World.renameAll plan.moves).run.run w = (.ok (), w')) {p : Path}
    (tried : p ∈ g.candidates g.options.start (pairs.map Prod.fst))
    (foreign : g.isForeign w.present ((pairs.map Prod.fst).map g.key) p = true) :
    g.isForeign w'.present ((pairs.map Prod.snd).map g.key) p = true := by
  have parts := foreign
  rw [isForeign, Bool.and_eq_true, Bool.and_eq_true, Bool.not_eq_true', ← Bool.not_eq_true,
    List.contains_iff_mem] at parts ⊢
  obtain ⟨⟨checks, outside⟩, stands⟩ := parts
  have listed : p ∈ plan.paths ++ g.foreign w (pairs.map Prod.fst) :=
    List.mem_append_right _ (List.mem_filter.2 ⟨tried, foreign⟩)
  have apart_from := ne_of_isForeign exact_case all distinct apart written planned spread listed foreign
  have in_batch : ∀ {m}, m ∈ changing (RenameItems.pairs numbered.pairs) → m ∈ pairs :=
    fun changes => ((mem_changing_of_batch all distinct written).1 changes).1
  refine ⟨⟨checks, fun inside => ?_⟩, ?_⟩
  · obtain ⟨t, in_targets, same⟩ := List.mem_map.1 inside
    obtain ⟨e, member, rfl⟩ := List.mem_map.1 in_targets
    rw [key_eq exact_case, key_eq exact_case] at same
    exact apart_from e member same
  · rw [present_of_renameAll planned flat spread (List.subset_append_left _ _)
      (fun m changes => there m (in_batch changes)) done listed, stands]
    intro m changes
    refine ⟨fun same => outside ?_, apart_from m (in_batch changes)⟩
    rw [key_eq exact_case, ← same, ← key_eq exact_case]
    exact List.mem_map_of_mem (List.mem_map_of_mem (in_batch changes))

include exact_case all distinct apart written planned flat spread in
/-- After the plan was carried out the files are placed where they are. -/
theorem places_again (unique : g.options.unique = true)
    (places : g.Places w.present ((pairs.map Prod.fst).map g.key) [] g.options.start pairs)
    (same : ∀ e ∈ pairs, ∀ n d, g.candidate e.2 n d = g.candidate e.1 n d)
    (there : ∀ e ∈ pairs, w.present e.1 = true)
    (done : (World.renameAll plan.moves).run.run w = (.ok (), w')) :
    g.Places w'.present ((pairs.map Prod.snd).map g.key) [] g.options.start
      (pairs.map fun e => (e.2, e.2)) := by
  refine places.again unique same (fun p tried foreign => ?_) fun e member => ?_
  · exact isForeign_again exact_case all distinct apart written planned flat spread there done tried foreign
  · have known := List.contains_iff_mem.2 (List.mem_map_of_mem (f := g.key)
      (List.mem_map_of_mem (f := Prod.snd) member))
    rw [isForeign, known, Bool.not_true, Bool.and_false, Bool.false_and]

end

/-- Renumbering again changes nothing: a batch that was numbered without wildcards, planned and
carried out is numbered again with every file's own path, in the same spelling, so that nothing
is wanted and nothing is planned. -/
theorem number_again (read : g.spec = .parse pattern) (no_star : '*' ∉ pattern) (no_mark : '?' ∉ pattern)
    (no_slash : '/' ∉ pattern) (unique : g.options.unique = true) (checks : g.options.checkExisting = true)
    (exact_case : g.options.caseInsensitive = false) (absolute : ∀ s ∈ sources, s.isAbsolute = true)
    (distinct : (sources.map Path.components).Nodup) (there : ∀ s ∈ sources, w.present s = true)
    (made : g.number w.present sources = .ok numbered)
    (planned : strict w.present false (RenameItems.pairs numbered.pairs) = .ok plan)
    (flat : w.Flat plan.paths) (spread : w.Spread (plan.paths ++ g.foreign w sources))
    (done : (World.renameAll plan.moves).run.run w = (.ok (), w')) :
    sources.map numbered.pairs.find? = (numbered.targets sources).map some ∧
      ∃ again, g.number w'.present (numbered.targets sources) = .ok again ∧
        (∀ t ∈ numbered.targets sources, again.pairs.find? t = some t) ∧
        RenameItems.pairs again.pairs = ∅ ∧
        strict w'.present false (RenameItems.pairs again.pairs) = .ok ⟨[], [], false⟩ := by
  obtain ⟨pairs, places, rfl, all⟩ := places_of_number made
  rw [List.forall_mem_map] at absolute there
  rw [List.map_map] at distinct
  have apart := places.apart unique checks
  have written := places.isEmpty_target read no_star no_mark no_slash unique
  have same := places.candidate_target read no_star no_mark no_slash unique absolute
  have again := places_again exact_case all distinct apart written planned flat spread unique places same
    there done
  -- the destinations are the sources of the second batch
  have spelled : (pairs.map fun e => (e.2, e.2)).map Prod.fst = pairs.map Prod.snd := List.map_map
  rw [← spelled] at again
  obtain ⟨numbered', made', all'⟩ := again.number
  have distinct' : ((pairs.map fun e => (e.2, e.2)).map fun e => e.1.components).Nodup := by
    have keys := apart.distinct
    simp only [key_eq exact_case] at keys
    rw [List.map_map]
    exact keys
  rw [targets_eq all distinct]
  refine ⟨?_, numbered', spelled ▸ made', fun t member => ?_, ?_⟩
  · rw [List.map_map, List.map_map]
    exact List.map_congr_left fun e member => find?_of_batch all distinct member
  · obtain ⟨e, in_pairs, rfl⟩ := List.mem_map.1 member
    exact find?_of_batch all' distinct' (List.mem_map_of_mem (f := fun e => (e.2, e.2)) in_pairs)
  · rw [pairs_eq_empty all' distinct']
    exact ⟨rfl, rfl⟩

/-- A file that is not in the batch has the first name, and two files of the batch have each
other's. -/
theorem number_again_decorated :
    let g : Numbering := ⟨.parse ['p', '#'], { maxDuplicates := 3 }, by decide +kernel⟩
    let w := World.sample [("a.txt", "one"), ("p1.txt", "other"), ("p2.txt", "three"), ("p3.txt", "two")]
    let sources : List Path := [.ofString "/w/a.txt", .ofString "/w/p3.txt", .ofString "/w/p2.txt"]
    let targets : List Path := [.ofString "/w/p1_(2).txt", .ofString "/w/p2.txt", .ofString "/w/p3.txt"]
    let plan : RenamePlan := {
      steps :=
        [⟨.ofString "/w/a.txt", .ofString "/w/p1_(2).txt", .direct⟩,
          ⟨.ofString "/w/p2.txt", .ofString "/w/p3[1].txt", .staged⟩,
          ⟨.ofString "/w/p3.txt", .ofString "/w/p2.txt", .direct⟩,
          ⟨.ofString "/w/p3[1].txt", .ofString "/w/p3.txt", .delayed⟩]
      conflicts := []
      caseInsensitive := false }
    ∃ numbered w', g.number w.present sources = .ok numbered ∧ numbered.targets sources = targets ∧
      strict w.present false (RenameItems.pairs numbered.pairs) = .ok plan ∧
      (World.renameAll plan.moves).run.run w = (.ok (), w') ∧
      ∃ again, g.number w'.present targets = .ok again ∧ (∀ t ∈ targets, again.pairs.find? t = some t) ∧
        RenameItems.pairs again.pairs = ∅ ∧
        strict w'.present false (RenameItems.pairs again.pairs) = .ok ⟨[], [], false⟩ := by
  intro g w sources targets plan
  have known : (g.number w.present sources).map (·.targets sources) = .ok targets := by decide +kernel
  have plans : ((g.number w.present sources).bind fun numbered =>
      strict w.present false (RenameItems.pairs numbered.pairs)) = .ok plan := by decide +kernel
  cases made : g.number w.present sources with
  | error failure =>
      rw [made] at known
      cases known
  | ok numbered =>
      rw [made] at known plans
      have shown : numbered.targets sources = targets := Except.ok.inj known
      have planned : strict w.present false (RenameItems.pairs numbered.pairs) = .ok plan := plans
      have flat : w.Flat plan.paths := by decide +kernel
      have spread : w.Spread (plan.paths ++ g.foreign w sources) := by decide +kernel
      have succeeds : ((World.renameAll plan.moves).run.run w).1.isOk = true := by decide +kernel
      cases done : (World.renameAll plan.moves).run.run w with
      | mk result w' =>
          cases result with
          | error fault =>
              rw [done] at succeeds
              cases succeeds
          | ok _ =>
              have read : g.spec = .parse ['p', '#'] := rfl
              have again := (number_again read (by decide) (by decide) (by decide) rfl rfl rfl
                (by decide +kernel) (by decide +kernel) (by decide +kernel) made planned flat spread done).2
              rw [shown] at again
              exact ⟨numbered, w', rfl, shown, planned, rfl, again⟩

end Numbering

end Renumber
