import Mathlib.Data.List.Nodup
import Renumber.Plan.Basic
import Renumber.Proofs.Moves

/-!
# The steps of a plan

The steps are chosen one pair at a time. A pair whose destination is not occupied at its
turn goes there directly; any other steps aside to a fresh name first. So every
first-phase step finds its source in place and its target free, and when the first phase
is over no source stands where it stood, which frees the destinations of the delayed
steps.
-/

namespace Renumber.Plan

variable {present : Path → Bool} {ci : Bool} {sourceKeys : List PathKey}

/-- How the steps for a list of pairs are chosen. -/
inductive Chosen (present : Path → Bool) (ci : Bool) (sourceKeys : List PathKey) :
    Occupancy → List (Path × Path) → List RenameStep → List RenameStep → Prop
  | nil (o : Occupancy) : Chosen present ci sourceKeys o [] [] []
  | direct {o : Occupancy} {source target : Path} {rest : List (Path × Path)}
      {steps delayed : List RenameStep}
      (clear : o.blocks sourceKeys (source.key ci) (target.key ci) = false)
      (later : Chosen present ci sourceKeys
        ⟨o.planned, source.key ci :: o.vacated, target.key ci :: o.filled⟩ rest steps delayed) :
      Chosen present ci sourceKeys o ((source, target) :: rest)
        (⟨source, target, .direct⟩ :: steps) delayed
  | staged {o : Occupancy} {source target aside : Path} {rest : List (Path × Path)}
      {steps delayed : List RenameStep}
      (blocked : o.blocks sourceKeys (source.key ci) (target.key ci) = true)
      (unplanned : aside.key ci ∉ o.planned) (absent : present aside = false)
      (later : Chosen present ci sourceKeys
        ⟨aside.key ci :: o.planned, source.key ci :: o.vacated, aside.key ci :: o.filled⟩
        rest steps delayed) :
      Chosen present ci sourceKeys o ((source, target) :: rest)
        (⟨source, aside, .staged⟩ :: steps) (⟨aside, target, .delayed⟩ :: delayed)

/-- An intermediate name is neither planned for anything else nor taken. -/
theorem freeIntermediate?_spec {planned : List PathKey} {target aside : Path}
    (found : freeIntermediate? present ci planned target = some aside) :
    aside.key ci ∉ planned ∧ present aside = false := by
  rw [freeIntermediate?] at found
  have free := List.find?_some found
  simpa using free

theorem chosen_of_chooseSteps {o : Occupancy} {pairs : List (Path × Path)}
    {steps delayed : List RenameStep}
    (chosen : chooseSteps present ci sourceKeys o pairs = .ok (steps, delayed)) :
    Chosen present ci sourceKeys o pairs steps delayed := by
  induction pairs generalizing o steps delayed with
  | nil =>
      cases chosen
      exact .nil o
  | cons m rest ih =>
      obtain ⟨source, target⟩ := m
      rw [chooseSteps] at chosen
      simp only at chosen
      split at chosen
      · next blocked =>
        split at chosen
        · cases chosen
        · next aside found =>
          obtain ⟨unplanned, absent⟩ := freeIntermediate?_spec found
          cases later : chooseSteps present ci sourceKeys
            ⟨aside.key ci :: o.planned, source.key ci :: o.vacated, aside.key ci :: o.filled⟩
            rest with
          | error failure =>
              rw [later] at chosen
              cases chosen
          | ok parts =>
              rw [later] at chosen
              cases chosen
              exact .staged blocked unplanned absent (ih later)
      · next clear =>
        cases later : chooseSteps present ci sourceKeys
          ⟨o.planned, source.key ci :: o.vacated, target.key ci :: o.filled⟩ rest with
        | error failure =>
            rw [later] at chosen
            cases chosen
        | ok parts =>
            rw [later] at chosen
            cases chosen
            exact .direct (by simpa using clear) (ih later)

/-- Another file of the batch is at a destination when its key is filled, or is a source
that has not left yet. -/
theorem blocks_iff {o : Occupancy} {source target : PathKey} :
    o.blocks sourceKeys source target = true ↔ target ≠ source ∧
      (target ∈ o.filled ∨ target ∈ sourceKeys ∧ target ∉ o.vacated) := by
  simp [Occupancy.blocks]

section

variable {o : Occupancy} {pairs : List (Path × Path)} {steps delayed : List RenameStep}

/-- Every pair has one first-phase step, in order. -/
theorem Chosen.sources (chosen : Chosen present ci sourceKeys o pairs steps delayed) :
    steps.map RenameStep.source = pairs.map Prod.fst := by
  induction chosen with
  | nil => rfl
  | direct _ _ ih => simp [ih]
  | staged _ _ _ _ ih => simp [ih]

/-- A first-phase step goes to a destination or to a name that was not planned. -/
theorem Chosen.target_cases (chosen : Chosen present ci sourceKeys o pairs steps delayed)
    {s : RenameStep} (member : s ∈ steps) :
    s.target.key ci ∈ pairs.map (fun m => m.2.key ci) ∨ s.target.key ci ∉ o.planned := by
  induction chosen with
  | nil => cases member
  | direct _ _ ih =>
      rcases List.mem_cons.1 member with rfl | member
      · exact .inl List.mem_cons_self
      · exact (ih member).imp_left (List.mem_cons_of_mem _)
  | staged _ unplanned _ _ ih =>
      rcases List.mem_cons.1 member with rfl | member
      · exact .inr unplanned
      · exact (ih member).imp (List.mem_cons_of_mem _) fun fresh planned =>
          fresh (List.mem_cons_of_mem _ planned)

/-- A delayed step goes on from an intermediate name to a destination that was blocked. -/
theorem Chosen.delayed_cases (chosen : Chosen present ci sourceKeys o pairs steps delayed)
    {s : RenameStep} (member : s ∈ delayed) :
    s.source ∈ steps.map RenameStep.target ∧ s.source.key ci ∉ o.planned ∧
      present s.source = false ∧ ∃ m ∈ pairs, m.2 = s.target := by
  induction chosen with
  | nil => cases member
  | direct _ _ ih =>
      obtain ⟨source, unplanned, absent, m, listed, target⟩ := ih member
      exact ⟨List.mem_cons_of_mem _ source, unplanned, absent, m, List.mem_cons_of_mem _ listed,
        target⟩
  | staged _ unplanned absent _ ih =>
      rcases List.mem_cons.1 member with rfl | member
      · exact ⟨List.mem_cons_self, unplanned, absent, _, List.mem_cons_self, rfl⟩
      · obtain ⟨source, fresh, absent, m, listed, target⟩ := ih member
        exact ⟨List.mem_cons_of_mem _ source, fun planned => fresh (List.mem_cons_of_mem _ planned),
          absent, m, List.mem_cons_of_mem _ listed, target⟩

theorem Chosen.delayed_target_mem (chosen : Chosen present ci sourceKeys o pairs steps delayed)
    {s : RenameStep} (member : s ∈ delayed) :
    s.target.key ci ∈ pairs.map fun m => m.2.key ci := by
  obtain ⟨-, -, -, m, listed, target⟩ := chosen.delayed_cases member
  exact List.mem_map.2 ⟨m, listed, by rw [target]⟩

/-- A planned key that is not among the destinations is no step's target. -/
theorem Chosen.target_apart (chosen : Chosen present ci sourceKeys o pairs steps delayed)
    {s : RenameStep} (member : s ∈ steps ++ delayed) {k : PathKey}
    (unlisted : k ∉ pairs.map fun m => m.2.key ci) (planned : k ∈ o.planned) :
    s.target.key ci ≠ k := by
  rintro rfl
  rcases List.mem_append.1 member with member | member
  · exact (chosen.target_cases member).elim unlisted fun fresh => fresh planned
  · exact unlisted (chosen.delayed_target_mem member)

/-- A pair is carried out by one direct step, or by a staged one and a delayed one. -/
theorem Chosen.pair_cases (chosen : Chosen present ci sourceKeys o pairs steps delayed)
    {m : Path × Path} (member : m ∈ pairs) :
    ⟨m.1, m.2, .direct⟩ ∈ steps ∨
      ∃ aside, ⟨m.1, aside, .staged⟩ ∈ steps ∧ ⟨aside, m.2, .delayed⟩ ∈ delayed := by
  induction chosen with
  | nil => cases member
  | direct _ _ ih =>
      rcases List.mem_cons.1 member with rfl | member
      · exact .inl List.mem_cons_self
      · rcases ih member with direct | ⟨aside, staged, later⟩
        · exact .inl (List.mem_cons_of_mem _ direct)
        · exact .inr ⟨aside, List.mem_cons_of_mem _ staged, later⟩
  | staged _ _ _ _ ih =>
      rcases List.mem_cons.1 member with rfl | member
      · exact .inr ⟨_, List.mem_cons_self, List.mem_cons_self⟩
      · rcases ih member with direct | ⟨aside, staged, later⟩
        · exact .inl (List.mem_cons_of_mem _ direct)
        · exact .inr ⟨aside, List.mem_cons_of_mem _ staged, List.mem_cons_of_mem _ later⟩

/-- Every first-phase step belongs to a pair: it reaches the pair's destination, or a
delayed step does from where it ends. -/
theorem Chosen.step_cases (chosen : Chosen present ci sourceKeys o pairs steps delayed)
    {s : RenameStep} (member : s ∈ steps) :
    (s.source, s.target) ∈ pairs ∨
      s.phase = .staged ∧ ∃ target, (s.source, target) ∈ pairs ∧
        ⟨s.target, target, .delayed⟩ ∈ delayed := by
  induction chosen with
  | nil => cases member
  | direct _ _ ih =>
      rcases List.mem_cons.1 member with rfl | member
      · exact .inl List.mem_cons_self
      · rcases ih member with listed | ⟨phase, target, listed, later⟩
        · exact .inl (List.mem_cons_of_mem _ listed)
        · exact .inr ⟨phase, target, List.mem_cons_of_mem _ listed, later⟩
  | staged _ _ _ _ ih =>
      rcases List.mem_cons.1 member with rfl | member
      · exact .inr ⟨rfl, _, List.mem_cons_self, List.mem_cons_self⟩
      · rcases ih member with listed | ⟨phase, target, listed, later⟩
        · exact .inl (List.mem_cons_of_mem _ listed)
        · exact .inr ⟨phase, target, List.mem_cons_of_mem _ listed, List.mem_cons_of_mem _ later⟩

/-- A staged step ends where a delayed one begins. -/
theorem Chosen.staged_cases (chosen : Chosen present ci sourceKeys o pairs steps delayed)
    {s : RenameStep} (member : s ∈ steps ++ delayed) (phase : s.phase = .staged) :
    ∃ target, ⟨s.target, target, .delayed⟩ ∈ delayed := by
  induction chosen with
  | nil => cases member
  | direct _ _ ih =>
      rcases List.mem_cons.1 member with rfl | member
      · cases phase
      · exact ih member
  | staged _ _ _ _ ih =>
      rcases List.mem_cons.1 member with rfl | member
      · exact ⟨_, List.mem_cons_self⟩
      · rcases List.mem_append.1 member with member | member
        · obtain ⟨target, later⟩ := ih (List.mem_append_left _ member)
          exact ⟨target, List.mem_cons_of_mem _ later⟩
        · rcases List.mem_cons.1 member with rfl | member
          · cases phase
          · obtain ⟨target, later⟩ := ih (List.mem_append_right _ member)
            exact ⟨target, List.mem_cons_of_mem _ later⟩

/-- No two intermediate names share a key. -/
theorem Chosen.delayed_sources_nodup (chosen : Chosen present ci sourceKeys o pairs steps delayed) :
    (delayed.map fun s => s.source.key ci).Nodup := by
  induction chosen with
  | nil => exact List.nodup_nil
  | direct _ _ ih => exact ih
  | staged _ _ _ later ih =>
      refine List.nodup_cons.2 ⟨fun repeated => ?_, ih⟩
      obtain ⟨s, member, same⟩ := List.mem_map.1 repeated
      exact (later.delayed_cases member).2.1 (by rw [same]; exact List.mem_cons_self)

/-- No two steps lead to one key. -/
theorem Chosen.targets_nodup (chosen : Chosen present ci sourceKeys o pairs steps delayed)
    (planned : ∀ m ∈ pairs, m.2.key ci ∈ o.planned)
    (targets : (pairs.map fun m => m.2.key ci).Nodup) :
    ((steps ++ delayed).map fun s => s.target.key ci).Nodup := by
  induction chosen with
  | nil => exact List.nodup_nil
  | @direct o source target rest steps delayed _ later ih =>
      obtain ⟨other, targets⟩ := List.nodup_cons.1 targets
      have in_plan := planned (source, target) List.mem_cons_self
      refine List.nodup_cons.2 ⟨fun repeated => ?_,
        ih (fun m member => planned m (List.mem_cons_of_mem _ member)) targets⟩
      obtain ⟨s, member, same⟩ := List.mem_map.1 repeated
      exact later.target_apart member other in_plan same
  | @staged o source target aside rest steps delayed _ unplanned _ later ih =>
      obtain ⟨other, targets⟩ := List.nodup_cons.1 targets
      have in_plan := planned (source, target) List.mem_cons_self
      have planned_rest : ∀ m ∈ rest, m.2.key ci ∈ o.planned :=
        fun m member => planned m (List.mem_cons_of_mem _ member)
      have ih := ih (fun m member => List.mem_cons_of_mem _ (planned_rest m member)) targets
      -- Neither the intermediate name nor the destination is the target of a later step.
      have aside_unlisted : aside.key ci ∉ rest.map fun m => m.2.key ci := by
        intro listed
        obtain ⟨m, member, same⟩ := List.mem_map.1 listed
        exact unplanned (same ▸ planned_rest m member)
      have aside_fresh : aside.key ci ∉ (steps ++ delayed).map fun s => s.target.key ci := by
        intro repeated
        obtain ⟨s, member, same⟩ := List.mem_map.1 repeated
        exact later.target_apart member aside_unlisted List.mem_cons_self same
      have target_fresh : target.key ci ∉ (steps ++ delayed).map fun s => s.target.key ci := by
        intro repeated
        obtain ⟨s, member, same⟩ := List.mem_map.1 repeated
        exact later.target_apart member other (List.mem_cons_of_mem _ in_plan) same
      have both : ((⟨source, aside, .staged⟩ :: steps ++
          ⟨aside, target, .delayed⟩ :: delayed).map fun s => s.target.key ci).Perm
          (aside.key ci :: target.key ci :: (steps ++ delayed).map fun s => s.target.key ci) :=
        (List.perm_middle.cons _).map _
      refine both.nodup_iff.2 (List.nodup_cons.2 ⟨?_, List.nodup_cons.2 ⟨target_fresh, ih⟩⟩)
      rw [List.mem_cons, not_or]
      exact ⟨fun same => unplanned (same ▸ in_plan), aside_fresh⟩

end

/-! ## Running the steps -/

section

variable {loc : Path → Location} {named : Path → Prop}

/-- Named paths have one location exactly when they have one key. -/
def TellsApart (ci : Bool) (loc : Path → Location) (named : Path → Prop) : Prop :=
  ∀ p q, named p → named q → (loc p = loc q ↔ p.key ci = q.key ci)

/-- The locations of a step. -/
def moveOf (loc : Path → Location) (s : RenameStep) : Location × Location :=
  (loc s.source, loc s.target)

/-- Named paths with keys of their own have locations of their own. -/
theorem TellsApart.nodup_map (tells : TellsApart ci loc named) {path : RenameStep → Path}
    {steps : List RenameStep} (names : ∀ s ∈ steps, named (path s))
    (keys : (steps.map fun s => (path s).key ci).Nodup) : (steps.map fun s => loc (path s)).Nodup := by
  refine List.Nodup.map_on (fun s member s' member' same => ?_) keys.of_map
  exact List.inj_on_of_nodup_map keys member member'
    ((tells _ _ (names s member) (names s' member')).1 same)

/-- An intermediate name is the target of a first-phase step. -/
theorem Chosen.named_aside {o : Occupancy} {pairs : List (Path × Path)}
    {steps delayed : List RenameStep}
    (chosen : Chosen present ci sourceKeys o pairs steps delayed)
    (name_steps : ∀ s ∈ steps, named s.target) {s : RenameStep} (member : s ∈ delayed) :
    named s.source := by
  obtain ⟨step, in_steps, same⟩ := List.mem_map.1 (chosen.delayed_cases member).1
  exact same ▸ name_steps step in_steps

theorem Chosen.named_target {o : Occupancy} {pairs : List (Path × Path)}
    {steps delayed : List RenameStep}
    (chosen : Chosen present ci sourceKeys o pairs steps delayed)
    (names : ∀ m ∈ pairs, named m.1 ∧ named m.2) {s : RenameStep} (member : s ∈ delayed) :
    named s.target := by
  obtain ⟨-, -, -, m, listed, same⟩ := chosen.delayed_cases member
  exact same ▸ (names m listed).2

/-- What holds of the files when steps are still to be chosen for some pairs: their
sources are in place, what is vacated or was never a source is free for them, and so is
everything that is neither planned nor present. -/
structure Ready (present : Path → Bool) (ci : Bool) (sourceKeys : List PathKey)
    (loc : Path → Location) (named : Path → Prop) (o : Occupancy) (pairs : List (Path × Path))
    (files : FileMap) : Prop where
  sources : (pairs.map fun m => m.1.key ci).Nodup
  targets : (pairs.map fun m => m.2.key ci).Nodup
  changing : ∀ m ∈ pairs, m.2.key ci ≠ m.1.key ci
  planned : ∀ m ∈ pairs, m.1.key ci ∈ o.planned ∧ m.2.key ci ∈ o.planned
  unfilled : ∀ m ∈ pairs, m.2.key ci ∉ o.filled
  there : ∀ m ∈ pairs, files (loc m.1) ≠ none
  free : ∀ m ∈ pairs, m.2.key ci ∉ sourceKeys ∨ m.2.key ci ∈ o.vacated → files (loc m.2) = none
  fresh : ∀ p, named p → p.key ci ∉ o.planned → present p = false → files (loc p) = none

/-- The files are ready for the rest of the pairs once the first source has gone to where
nothing else is to go. -/
theorem Ready.next {o : Occupancy} {source target goal : Path} {rest : List (Path × Path)}
    {files between : FileMap} {planned : List PathKey}
    (ready : Ready present ci sourceKeys loc named o ((source, target) :: rest) files)
    (tells : TellsApart ci loc named)
    (names : ∀ m ∈ (source, target) :: rest, named m.1 ∧ named m.2) (name : named goal)
    (moved : files.move (loc source) (loc goal) = some between)
    (more : ∀ k, k ∈ o.planned → k ∈ planned) (known : goal.key ci ∈ planned)
    (apart : ∀ m ∈ rest, m.2.key ci ≠ goal.key ci) :
    Ready present ci sourceKeys loc named
      ⟨planned, source.key ci :: o.vacated, goal.key ci :: o.filled⟩ rest between := by
  obtain ⟨new_source, sources⟩ := List.nodup_cons.1 ready.sources
  have new_source : source.key ci ∉ rest.map fun m => m.1.key ci := new_source
  obtain ⟨-, targets⟩ := List.nodup_cons.1 ready.targets
  have name_source := (names (source, target) List.mem_cons_self).1
  have tail : ∀ {m}, m ∈ rest → m ∈ (source, target) :: rest := List.mem_cons_of_mem _
  refine ⟨sources, targets, fun m member => ready.changing m (tail member), ?_, ?_, ?_, ?_, ?_⟩
  · intro m member
    exact (ready.planned m (tail member)).imp (more _) (more _)
  · intro m member filled
    rcases List.mem_cons.1 filled with same | filled
    · exact apart m member same
    · exact ready.unfilled m (tail member) filled
  · intro m member
    have not_source : loc m.1 ≠ loc source := by
      rw [ne_eq, tells _ _ (names m (tail member)).1 name_source]
      intro same
      rw [← same] at new_source
      exact new_source (List.mem_map_of_mem member)
    have not_goal : loc m.1 ≠ loc goal := by
      intro same
      obtain ⟨_, _, free, _⟩ := FileMap.move_eq_some.1 moved
      exact ready.there m (tail member) (same ▸ free)
    rw [FileMap.move_other moved not_source not_goal]
    exact ready.there m (tail member)
  · intro m member clear
    have name_target := (names m (tail member)).2
    by_cases same : m.2.key ci = source.key ci
    · rw [(tells _ _ name_target name_source).2 same]
      exact FileMap.move_source moved
    · have not_source : loc m.2 ≠ loc source := by rwa [ne_eq, tells _ _ name_target name_source]
      have not_goal : loc m.2 ≠ loc goal := by
        rw [ne_eq, tells _ _ name_target name]
        exact apart m member
      rw [FileMap.move_other moved not_source not_goal]
      refine ready.free m (tail member) (clear.imp_right fun vacated => ?_)
      exact (List.mem_cons.1 vacated).resolve_left same
  · intro p name_p unplanned absent
    have not_source : loc p ≠ loc source := by
      rw [ne_eq, tells _ _ name_p name_source]
      intro same
      rw [same] at unplanned
      exact unplanned (more _ (ready.planned (source, target) List.mem_cons_self).1)
    have not_goal : loc p ≠ loc goal := by
      rw [ne_eq, tells _ _ name_p name]
      intro same
      exact unplanned (same ▸ known)
    rw [FileMap.move_other moved not_source not_goal]
    exact ready.fresh p name_p (fun k => unplanned (more _ k)) absent

/-- A first step is run and then the others are, when they neither lead to where it leads
nor start from there. -/
theorem Ready.moveAll_cons {o : Occupancy} {source target goal : Path} {phase : StepPhase}
    {rest : List (Path × Path)} {steps : List RenameStep} {files between : FileMap}
    (ready : Ready present ci sourceKeys loc named o ((source, target) :: rest) files)
    (tells : TellsApart ci loc named)
    (names : ∀ m ∈ (source, target) :: rest, named m.1 ∧ named m.2) (name : named goal)
    (name_steps : ∀ s ∈ steps, named s.target)
    (sources : steps.map RenameStep.source = rest.map Prod.fst)
    (apart : ∀ s ∈ steps, s.target.key ci ≠ goal.key ci)
    (moved : files.move (loc source) (loc goal) = some between)
    (later : ∃ files', FileMap.moveAll (steps.map (moveOf loc)) between = some files' ∧
      FileMap.Carried (steps.map (moveOf loc)) between files') :
    ∃ files', FileMap.moveAll ((⟨source, goal, phase⟩ :: steps).map (moveOf loc)) files =
        some files' ∧
      FileMap.Carried ((⟨source, goal, phase⟩ :: steps).map (moveOf loc)) files files' := by
  obtain ⟨files', later, carried⟩ := later
  refine ⟨files', ?_, .cons moved carried fun m member => ?_⟩
  · rw [List.map_cons, FileMap.moveAll_cons]
    simp only [moveOf, moved]
    exact later
  · obtain ⟨s, in_steps, rfl⟩ := List.mem_map.1 member
    have source_member : s.source ∈ rest.map Prod.fst := sources ▸ List.mem_map_of_mem in_steps
    obtain ⟨n, listed, same⟩ := List.mem_map.1 source_member
    have listed' : n ∈ (source, target) :: rest := List.mem_cons_of_mem _ listed
    have new_source : source.key ci ∉ rest.map fun m => m.1.key ci :=
      (List.nodup_cons.1 ready.sources).1
    obtain ⟨_, _, vacant, _⟩ := FileMap.move_eq_some.1 moved
    simp only [moveOf, ← same]
    refine ⟨?_, ?_, ?_⟩
    · rw [ne_eq, tells _ _ (names n listed').1 (names _ List.mem_cons_self).1]
      intro equal
      rw [← equal] at new_source
      exact new_source (List.mem_map_of_mem listed)
    · intro equal
      exact ready.there n listed' (equal ▸ vacant)
    · rw [ne_eq, tells _ _ (name_steps s in_steps) name]
      exact apart s in_steps

/-- The first phase can be run, and carries every source to the target of its step. -/
theorem Chosen.moveAll_steps {o : Occupancy} {pairs : List (Path × Path)}
    {steps delayed : List RenameStep} {files : FileMap}
    (chosen : Chosen present ci sourceKeys o pairs steps delayed)
    (tells : TellsApart ci loc named)
    (ready : Ready present ci sourceKeys loc named o pairs files)
    (names : ∀ m ∈ pairs, named m.1 ∧ named m.2) (name_steps : ∀ s ∈ steps, named s.target) :
    ∃ files', FileMap.moveAll (steps.map (moveOf loc)) files = some files' ∧
      FileMap.Carried (steps.map (moveOf loc)) files files' := by
  induction chosen generalizing files with
  | nil => exact ⟨files, rfl, .nil files⟩
  | @direct o source target rest steps delayed clear later ih =>
      obtain ⟨number, there⟩ := Option.ne_none_iff_exists'.1 (ready.there _ List.mem_cons_self)
      have target_free : target.key ci ∉ sourceKeys ∨ target.key ci ∈ o.vacated := by
        by_contra occupied
        rw [not_or, not_not] at occupied
        rw [blocks_iff.2 ⟨ready.changing _ List.mem_cons_self, .inr occupied⟩] at clear
        cases clear
      have vacant := ready.free _ List.mem_cons_self target_free
      obtain ⟨between, moved⟩ : ∃ between, files.move (loc source) (loc target) = some between :=
        ⟨_, FileMap.move_eq_some.2 ⟨number, there, vacant, rfl⟩⟩
      have name := (names _ List.mem_cons_self).2
      have planned := (ready.planned _ List.mem_cons_self).2
      have other : target.key ci ∉ rest.map fun m => m.2.key ci :=
        (List.nodup_cons.1 ready.targets).1
      have next := ready.next tells names name moved (fun _ => id) planned fun m member same =>
        other (same ▸ List.mem_map_of_mem member)
      have name_rest : ∀ s ∈ steps, named s.target :=
        fun s member => name_steps s (List.mem_cons_of_mem _ member)
      refine ready.moveAll_cons tells names name name_rest later.sources (fun s member same => ?_)
        moved (ih next (fun m member => names m (List.mem_cons_of_mem _ member)) name_rest)
      rcases later.target_cases member with listed | unplanned
      · exact other (same ▸ listed)
      · exact unplanned (same ▸ planned)
  | @staged o source target aside rest steps delayed blocked unplanned absent later ih =>
      obtain ⟨number, there⟩ := Option.ne_none_iff_exists'.1 (ready.there _ List.mem_cons_self)
      have name := name_steps _ List.mem_cons_self
      have vacant := ready.fresh aside name unplanned absent
      obtain ⟨between, moved⟩ : ∃ between, files.move (loc source) (loc aside) = some between :=
        ⟨_, FileMap.move_eq_some.2 ⟨number, there, vacant, rfl⟩⟩
      have planned_rest : ∀ k, k ∈ rest.map (fun m => m.2.key ci) → k ∈ o.planned := by
        intro k listed
        obtain ⟨m, member, rfl⟩ := List.mem_map.1 listed
        exact (ready.planned m (List.mem_cons_of_mem _ member)).2
      have next := ready.next tells names name moved (fun _ => List.mem_cons_of_mem (aside.key ci))
        List.mem_cons_self fun m member same =>
          unplanned (same ▸ planned_rest _ (List.mem_map_of_mem member))
      have name_rest : ∀ s ∈ steps, named s.target :=
        fun s member => name_steps s (List.mem_cons_of_mem _ member)
      refine ready.moveAll_cons tells names name name_rest later.sources (fun s member same => ?_)
        moved (ih next (fun m member => names m (List.mem_cons_of_mem _ member)) name_rest)
      rcases later.target_cases member with listed | fresh
      · exact unplanned (same ▸ planned_rest _ listed)
      · exact fresh (same ▸ List.mem_cons_self)

/-- The two lists of steps are two phases of the pairs. -/
theorem Chosen.twoPhases {o : Occupancy} {pairs : List (Path × Path)}
    {steps delayed : List RenameStep} {files : FileMap}
    (chosen : Chosen present ci sourceKeys o pairs steps delayed)
    (tells : TellsApart ci loc named)
    (ready : Ready present ci sourceKeys loc named o pairs files)
    (names : ∀ m ∈ pairs, named m.1 ∧ named m.2) (name_steps : ∀ s ∈ steps, named s.target) :
    FileMap.Staged (steps.map (moveOf loc)) (delayed.map (moveOf loc))
      (pairs.map (Prod.map loc loc)) where
  whole := by
    refine List.forall_mem_map.2 fun m listed => ?_
    obtain direct | ⟨aside, leaves, goes_on⟩ := chosen.pair_cases listed
    · exact .inl (List.mem_map_of_mem (f := moveOf loc) direct)
    · exact .inr ⟨loc aside, List.mem_map_of_mem (f := moveOf loc) leaves,
        List.mem_map_of_mem (f := moveOf loc) goes_on⟩
  of_early := by
    refine List.forall_mem_map.2 fun s in_steps => ?_
    obtain listed | ⟨-, target, listed, goes_on⟩ := chosen.step_cases in_steps
    · exact .inl (List.mem_map_of_mem (f := Prod.map loc loc) listed)
    · exact .inr ⟨loc target, List.mem_map_of_mem (f := Prod.map loc loc) listed,
        List.mem_map_of_mem (f := moveOf loc) goes_on⟩
  of_late := by
    refine List.forall_mem_map.2 fun s in_delayed => ?_
    obtain ⟨brought, -, -, m, listed, target⟩ := chosen.delayed_cases in_delayed
    obtain ⟨step, in_steps, same⟩ := List.mem_map.1 brought
    exact ⟨⟨_, List.mem_map_of_mem listed, congrArg loc target⟩,
      ⟨_, List.mem_map_of_mem in_steps, congrArg loc same⟩⟩
  aside := by
    refine List.forall_mem_map.2 fun s in_delayed => List.forall_mem_map.2 fun m listed => ?_
    have unplanned := (chosen.delayed_cases in_delayed).2.1
    have apart : ∀ p, named p → p.key ci ∈ o.planned → loc s.source ≠ loc p := by
      intro p name planned same
      exact unplanned ((tells _ _ (chosen.named_aside name_steps in_delayed) name).1 same ▸ planned)
    exact ⟨apart _ (names m listed).1 (ready.planned m listed).1,
      apart _ (names m listed).2 (ready.planned m listed).2⟩
  apart := by
    refine List.forall_mem_map.2 fun s in_steps => List.forall_mem_map.2 fun s' in_delayed same => ?_
    have targets := chosen.targets_nodup (fun m member => (ready.planned m member).2) ready.targets
    rw [List.map_append, List.nodup_append] at targets
    exact targets.2.2 _ (List.mem_map_of_mem in_steps) _ (List.mem_map_of_mem in_delayed)
      ((tells _ _ (name_steps s in_steps) (chosen.named_target names in_delayed)).1 same)

/-- Both phases together carry every source to its destination at once, where all sources of the
batch are among the pairs. -/
theorem Chosen.moveAll {o : Occupancy} {pairs : List (Path × Path)}
    {steps delayed : List RenameStep} {files : FileMap}
    (chosen : Chosen present ci sourceKeys o pairs steps delayed)
    (whole : sourceKeys = pairs.map fun m => m.1.key ci) (tells : TellsApart ci loc named)
    (ready : Ready present ci sourceKeys loc named o pairs files)
    (names : ∀ m ∈ pairs, named m.1 ∧ named m.2) (name_steps : ∀ s ∈ steps, named s.target) :
    ∃ files', FileMap.moveAll ((steps ++ delayed).map (moveOf loc)) files = some files' ∧
      FileMap.Carried (pairs.map (Prod.map loc loc)) files files' := by
  have staged := chosen.twoPhases tells ready names name_steps
  have targets := chosen.targets_nodup (fun m member => (ready.planned m member).2) ready.targets
  rw [List.map_append, List.nodup_append] at targets
  have apart_sources : ((delayed.map (moveOf loc)).map Prod.fst).Nodup := by
    rw [List.map_map]
    exact tells.nodup_map (fun _ => chosen.named_aside name_steps) chosen.delayed_sources_nodup
  have apart_targets : ((delayed.map (moveOf loc)).map Prod.snd).Nodup := by
    rw [List.map_map]
    exact tells.nodup_map (fun _ => chosen.named_target names) targets.2.1
  have there : ∀ m ∈ pairs.map (Prod.map loc loc), files m.1 ≠ none :=
    List.forall_mem_map.2 ready.there
  have free : ∀ m ∈ pairs.map (Prod.map loc loc),
      (∀ n ∈ pairs.map (Prod.map loc loc), n.1 ≠ m.2) → files m.2 = none := by
    refine List.forall_mem_map.2 fun m listed unbegun => ready.free m listed (.inl ?_)
    rw [whole]
    intro begins
    obtain ⟨n, listed', same⟩ := List.mem_map.1 begins
    exact unbegun _ (List.mem_map_of_mem listed')
      ((tells _ _ (names n listed').1 (names m listed).2).2 same)
  have aside_free : ∀ k ∈ delayed.map (moveOf loc), files k.1 = none := by
    refine List.forall_mem_map.2 fun s in_delayed => ?_
    obtain ⟨-, unplanned, absent, -⟩ := chosen.delayed_cases in_delayed
    exact ready.fresh s.source (chosen.named_aside name_steps in_delayed) unplanned absent
  obtain ⟨between, first, carried⟩ := chosen.moveAll_steps tells ready names name_steps
  obtain ⟨files', second, carried'⟩ :=
    staged.moveAll_late apart_sources apart_targets there free carried
  refine ⟨files', ?_, staged.carried aside_free carried carried'⟩
  rw [List.map_append, FileMap.moveAll_append, first]
  exact second

end

end Renumber.Plan
