import Renumber.Proofs.Plan.Conflict
import Renumber.Proofs.Plan.Steps
import Renumber.Proofs.World.Renamed
import Renumber.Proofs.World.Sample

/-!
# Plans rename at once

A plan is made for a flat file system, on which its steps are then taken one after the
other. Every step succeeds, and together they do what renaming all files at once would
do, however the pairs are chained or form cycles.
-/

namespace Renumber

/-- The moves of a plan in order. -/
def RenamePlan.moves (plan : RenamePlan) : List (Path × Path) :=
  plan.steps.map fun s => (s.source, s.target)

/-- The paths that the steps of a plan name: sources, destinations and intermediate
names. -/
def RenamePlan.paths (plan : RenamePlan) : List Path :=
  plan.steps.flatMap fun s => [s.source, s.target]

theorem RenamePlan.mem_paths {plan : RenamePlan} {s : RenameStep} (member : s ∈ plan.steps) :
    s.source ∈ plan.paths ∧ s.target ∈ plan.paths := by
  constructor <;> exact List.mem_flatMap.2 ⟨s, member, by simp⟩

namespace Plan

variable {present : Path → Bool} {ci : Bool} {pairs : PathPairs} {plan : RenamePlan}

/-- What a plan comes from when it is made without conflicts. -/
theorem strict_eq_ok (planned : strict present ci pairs = .ok plan) :
    conflicts present ci ((changing pairs).map fun m => m.1.key ci) (changing pairs) = [] ∧
      ∃ steps delayed, plan = ⟨steps ++ delayed, [], ci⟩ ∧
        Chosen present ci ((changing pairs).map fun m => m.1.key ci)
          ⟨((changing pairs).map fun m => m.1.key ci) ++
            (changing pairs).map fun m => m.2.key ci, [], []⟩
          (changing pairs) steps delayed := by
  rw [strict, withConflicts] at planned
  simp only [bind, Except.bind] at planned
  split at planned
  · cases planned
  next made =>
  split at made
  · cases made
  split at made
  · next none_found =>
    refine ⟨none_found, ?_⟩
    split at planned
    · cases chosen : chooseSteps present ci ((changing pairs).map fun m => m.1.key ci)
        ⟨((changing pairs).map fun m => m.1.key ci) ++
          (changing pairs).map fun m => m.2.key ci, [], []⟩ (changing pairs) with
      | error failure =>
          rw [chosen] at made
          cases made
      | ok parts =>
          rw [chosen] at made
          cases made
          cases planned
          exact ⟨parts.1, parts.2, rfl, chosen_of_chooseSteps chosen⟩
    · cases planned
  · next found =>
    cases made
    simp only at planned
    split at planned
    · next empty => exact absurd (List.isEmpty_iff.1 empty) found
    · cases planned

theorem key_nodup_changing (pairs : PathPairs) :
    ((changing pairs).map fun m => m.1.key false).Nodup :=
  pairs.components_nodup.sublist (List.filter_sublist.map _)

theorem key_ne_of_changing {m : Path × Path} (member : m ∈ changing pairs) :
    m.2.key false ≠ m.1.key false := by
  have other := (List.mem_filter.1 member).2
  rw [Path.key_false, Path.key_false, ne_eq, eq_comm, ← Path.same_iff]
  simpa using other

/-- The paths of every pair are among those of the plan. -/
theorem listed_of_strict (planned : strict present ci pairs = .ok plan) {m : Path × Path}
    (member : m ∈ changing pairs) : m.1 ∈ plan.paths ∧ m.2 ∈ plan.paths := by
  obtain ⟨-, steps, delayed, rfl, chosen⟩ := strict_eq_ok planned
  obtain direct | ⟨aside, staged, later⟩ := chosen.pair_cases member
  · exact RenamePlan.mem_paths (s := ⟨m.1, m.2, .direct⟩) (List.mem_append_left _ direct)
  · constructor
    · exact (RenamePlan.mem_paths (s := ⟨m.1, aside, .staged⟩) (List.mem_append_left _ staged)).1
    · exact (RenamePlan.mem_paths (s := ⟨aside, m.2, .delayed⟩) (List.mem_append_right _ later)).2

/-- In a flat file system everything is ready for a plan to be chosen. -/
theorem ready_of_strict {w : World} (planned : strict w.present false pairs = .ok plan)
    (flat : w.Flat plan.paths) (there : ∀ m ∈ changing pairs, w.present m.1 = true) :
    Ready w.present false ((changing pairs).map fun m => m.1.key false) w.locationOf (· ∈ plan.paths)
      ⟨((changing pairs).map fun m => m.1.key false) ++ (changing pairs).map fun m => m.2.key false,
        [], []⟩ (changing pairs) w.files := by
  have none_found := (strict_eq_ok planned).1
  have free : ∀ p ∈ plan.paths, w.present p = false → w.files (w.locationOf p) = none := by
    intro p member absent
    rw [flat.present_eq member] at absent
    simpa using absent
  refine ⟨key_nodup_changing pairs, targetKeys_nodup none_found,
    fun m member => key_ne_of_changing member, fun m member => ?_, fun m member => by simp,
    fun m member vacant => ?_, fun m member clear => ?_, fun p member _ => free p member⟩
  · exact ⟨List.mem_append_left _ (List.mem_map_of_mem (f := fun m => m.1.key false) member),
      List.mem_append_right _ (List.mem_map_of_mem (f := fun m => m.2.key false) member)⟩
  · have present := there m member
    rw [flat.present_eq (listed_of_strict planned member).1, vacant] at present
    cases present
  · have outside := clear.resolve_right (by simp)
    exact free _ (listed_of_strict planned member).2
      ((of_conflicts_eq_nil none_found member).2.resolve_left outside)

/-- In a flat file system the moves of a plan are possible one after the other, and
together they are the renames at once. -/
theorem exists_run_moves {w : World} (planned : strict w.present false pairs = .ok plan)
    (flat : w.Flat plan.paths) (there : ∀ m ∈ changing pairs, w.present m.1 = true) :
    ∃ files', FileMap.run w.place? plan.moves w.files = some files' ∧
      FileMap.Carried ((changing pairs).map (Prod.map w.locationOf w.locationOf)) w.files files' := by
  have ready := ready_of_strict planned flat there
  have listed : ∀ m ∈ changing pairs, m.1 ∈ plan.paths ∧ m.2 ∈ plan.paths :=
    fun m member => listed_of_strict planned member
  have tells : TellsApart false w.locationOf (· ∈ plan.paths) :=
    fun p q member member' => flat.locationOf_eq_iff member member'
  obtain ⟨-, steps, delayed, rfl, chosen⟩ := strict_eq_ok planned
  obtain ⟨files', moved, carried⟩ := chosen.moveAll rfl tells ready listed fun s member =>
    (RenamePlan.mem_paths (List.mem_append_left _ member)).2
  refine ⟨files', ?_, carried⟩
  rw [FileMap.run_eq_moveAll w.locationOf]
  · rw [← moved, RenamePlan.moves, List.map_map]
    rfl
  · intro m in_moves
    obtain ⟨s, member, rfl⟩ := List.mem_map.1 in_moves
    obtain ⟨source, target⟩ := RenamePlan.mem_paths member
    exact ⟨flat.place_eq source, flat.place_eq target⟩

/-- The intermediate names of a plan are free, and no file is to leave or to come there. -/
theorem staged_aside {w : World} (planned : strict w.present false pairs = .ok plan)
    (flat : w.Flat plan.paths) {s : RenameStep} (member : s ∈ plan.steps)
    (staged : s.phase = .staged) :
    w.files (w.locationOf s.target) = none ∧
      ∀ m ∈ changing pairs, w.locationOf m.1 ≠ w.locationOf s.target ∧
        w.locationOf m.2 ≠ w.locationOf s.target := by
  have name := (RenamePlan.mem_paths member).2
  have listed : ∀ {m}, m ∈ changing pairs → m.1 ∈ plan.paths ∧ m.2 ∈ plan.paths :=
    listed_of_strict planned
  obtain ⟨-, steps, delayed, rfl, chosen⟩ := strict_eq_ok planned
  obtain ⟨target, later⟩ := chosen.staged_cases member staged
  obtain ⟨-, unplanned, absent, -⟩ := chosen.delayed_cases later
  rw [List.mem_append, not_or] at unplanned
  refine ⟨?_, fun m in_pairs => ⟨fun same => unplanned.1 ?_, fun same => unplanned.2 ?_⟩⟩
  · rw [flat.present_eq name] at absent
    simpa using absent
  · exact List.mem_map.2 ⟨m, in_pairs, (flat.locationOf_eq_iff (listed in_pairs).1 name).1 same⟩
  · exact List.mem_map.2 ⟨m, in_pairs, (flat.locationOf_eq_iff (listed in_pairs).2 name).1 same⟩

/-- What a plan comes to in a flat file system: its moves are possible and are the renames at once,
it names all files, and its intermediate names are free before. -/
theorem run_moves {w : World} (planned : strict w.present false pairs = .ok plan)
    (flat : w.Flat plan.paths) (there : ∀ m ∈ changing pairs, w.present m.1 = true) :
    (∃ files', FileMap.run w.place? plan.moves w.files = some files' ∧
      FileMap.Carried ((changing pairs).map (Prod.map w.locationOf w.locationOf)) w.files files') ∧
    (∀ m ∈ changing pairs, m.1 ∈ plan.paths ∧ m.2 ∈ plan.paths) ∧
    ∀ s ∈ plan.steps, s.phase = .staged →
      w.files (w.locationOf s.target) = none ∧
        ∀ m ∈ changing pairs, w.locationOf m.1 ≠ w.locationOf s.target ∧
          w.locationOf m.2 ≠ w.locationOf s.target :=
  ⟨exists_run_moves planned flat there, fun _ => listed_of_strict planned,
    fun _ => staged_aside planned flat⟩

/-- Where files were moved at once as a plan for them says, every destination holds what its source
held, the destinations of files that stay included. -/
theorem brought {w : World} {paths : List Path} {files' : FileMap}
    (planned : strict w.present false pairs = .ok plan) (flat : w.Flat paths)
    (listed : ∀ m ∈ pairs.entries, m.1 ∈ paths ∧ m.2 ∈ paths)
    (there : ∀ m ∈ pairs.entries, w.present m.1 = true)
    (carried : FileMap.Carried ((changing pairs).map (Prod.map w.locationOf w.locationOf)) w.files
      files') {m : Path × Path} (member : m ∈ pairs.entries) :
    files' (w.locationOf m.2) = w.files (w.locationOf m.1) := by
  have none_found := (strict_eq_ok planned).1
  have in_entries : ∀ {n}, n ∈ changing pairs → n ∈ pairs.entries := List.mem_of_mem_filter
  by_cases stays : m.1.same m.2 = true
  · have one_place : w.locationOf m.2 = w.locationOf m.1 :=
      (flat.locationOf_eq_iff (listed m member).2 (listed m member).1).2 (Path.same_iff.1 stays).symm
    -- No file leaves the place of one that stays, so none may come to it.
    have alone : ∀ n ∈ changing pairs, n.1.components ≠ m.1.components := by
      intro n changes equal
      have found := PathMap.findItem?_congr pairs (Path.same_iff.2 equal)
      rw [PathMap.findItem?_of_mem member, PathMap.findItem?_of_mem (in_entries changes)] at found
      obtain rfl := Option.some.inj found
      have moves : (!n.1.same n.2) = true := (List.mem_filter.1 changes).2
      rw [stays] at moves
      cases moves
    rw [one_place]
    refine carried.other _ fun n in_moves => ?_
    obtain ⟨k, changes, rfl⟩ := List.mem_map.1 in_moves
    obtain ⟨source, target⟩ := listed k (in_entries changes)
    have here := (listed m member).1
    refine ⟨fun leaves => alone k changes ((flat.locationOf_eq_iff source here).1 leaves),
      fun comes => ?_⟩
    have taken := (flat.locationOf_eq_iff target here).1 comes
    obtain in_sources | absent := (of_conflicts_eq_nil none_found changes).2
    · obtain ⟨j, changes', key⟩ := List.mem_map.1 in_sources
      rw [Path.key_false, Path.key_false] at key
      exact alone j changes' (key.trans taken)
    · have present := there m member
      rw [flat.present_eq here] at present
      rw [flat.present_eq target] at absent
      have comes : w.locationOf k.2 = w.locationOf m.1 := comes
      rw [comes, present] at absent
      cases absent
  · have changes : m ∈ changing pairs := List.mem_filter.2 ⟨member, by simpa using stays⟩
    exact carried.target _ (List.mem_map_of_mem (f := Prod.map _ _) changes)

/-- Running a plan on a flat file system, where the sources exist, succeeds at every step.
Afterwards every destination holds exactly what its source held, every source that is
nobody's destination is gone, no intermediate name is left, and all else is unchanged. -/
theorem renameAll_moves {w : World} (planned : strict w.present false pairs = .ok plan)
    (flat : w.Flat plan.paths) (there : ∀ m ∈ changing pairs, w.present m.1 = true) :
    ∃ w', (World.renameAll plan.moves).run.run w = (.ok (), w') ∧
      World.Renamed (changing pairs) w w' ∧
      ∀ s ∈ plan.steps, s.phase = .staged → w'.present s.target = false := by
  obtain ⟨⟨files', possible, carried⟩, listed, asides⟩ := run_moves planned flat there
  have targets : ∀ m ∈ plan.moves, w.FlatAt m.2 := by
    intro m in_moves
    obtain ⟨s, member, rfl⟩ := List.mem_map.1 in_moves
    exact flat.flatAt (RenamePlan.mem_paths member).2
  obtain ⟨w', done, -, rfl, -, shuffles⟩ :=
    World.renameAll_of_run ∅ flat.tree targets possible
  refine ⟨w', done, .of_carried flat listed there shuffles carried, fun s member staged => ?_⟩
  have name := (RenamePlan.mem_paths member).2
  have place : w'.place? s.target = some (w.locationOf s.target) := by
    rw [shuffles.place?, flat.place_eq name]
  obtain ⟨free, apart⟩ := asides s member staged
  have gone : w'.files (w.locationOf s.target) = none := by
    rw [carried.other _ fun m in_moves => ?_, free]
    obtain ⟨n, in_pairs, rfl⟩ := List.mem_map.1 in_moves
    exact apart n in_pairs
  rw [World.present_of_flatAt (shuffles.flatAt (flat.flatAt name)) place, gone]
  rfl

/-- Three files of which two change places and one moves to a new name. -/
def swapPairs : PathPairs :=
  .ofList [(.ofString "a", .ofString "b"), (.ofString "b", .ofString "a"),
    (.ofString "c", .ofString "d")]

/-- The plan for them: the first file steps aside. -/
def swapPlan : RenamePlan where
  steps :=
    [⟨.ofString "a", .ofString "b[1]", .staged⟩, ⟨.ofString "b", .ofString "a", .direct⟩,
      ⟨.ofString "c", .ofString "d", .direct⟩, ⟨.ofString "b[1]", .ofString "b", .delayed⟩]
  conflicts := []
  caseInsensitive := false

theorem renameAll_swap :
    let w := World.sample [("a", "first"), ("b", "second"), ("c", "third")]
    strict w.present false swapPairs = .ok swapPlan ∧
      ∃ w', (World.renameAll swapPlan.moves).run.run w = (.ok (), w') ∧
        World.Renamed (changing swapPairs) w w' ∧
        ∀ s ∈ swapPlan.steps, s.phase = .staged → w'.present s.target = false :=
  ⟨by decide +kernel,
    renameAll_moves (by decide +kernel) (by decide +kernel) (by decide +kernel)⟩

end Plan

end Renumber
