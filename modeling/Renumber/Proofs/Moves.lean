import Mathlib.Data.Set.Basic
import Renumber.Disk.Walk

/-!
# Moves of files between places

Where only files move, a disk comes down to a partial map from locations to files, and
a move takes a file from one location to another that holds none. Such a move can be
taken back, and so can a list of them, in the opposite order.
-/

namespace Renumber

/-- Which file stands at a location. -/
abbrev FileMap := Location → Option Nat

namespace FileMap

/-- Move the file of one location to another, which must hold none. -/
def move (files : FileMap) (a b : Location) : Option FileMap :=
  match files a, files b with
  | some id, none => some fun loc => if loc = b then some id else if loc = a then none else files loc
  | _, _ => none

theorem move_eq_some {files files' : FileMap} {a b : Location} :
    files.move a b = some files' ↔ ∃ id, files a = some id ∧ files b = none ∧
      files' = fun loc => if loc = b then some id else if loc = a then none else files loc := by
  rw [move]
  split
  · next id there free => simp [there, free, eq_comm]
  · next none_of =>
    constructor
    · intro h
      cases h
    · rintro ⟨id, there, free, -⟩
      exact absurd free (none_of id there)

theorem move_apart {files files' : FileMap} {a b : Location} (moved : files.move a b = some files') :
    a ≠ b := by
  obtain ⟨id, there, free, rfl⟩ := move_eq_some.1 moved
  rintro rfl
  rw [there] at free
  cases free

theorem move_target {files files' : FileMap} {a b : Location} (moved : files.move a b = some files') :
    files' b = files a := by
  obtain ⟨id, there, -, rfl⟩ := move_eq_some.1 moved
  simp [there]

theorem move_source {files files' : FileMap} {a b : Location} (moved : files.move a b = some files') :
    files' a = none := by
  have apart := move_apart moved
  obtain ⟨id, -, -, rfl⟩ := move_eq_some.1 moved
  simp [apart]

theorem move_other {files files' : FileMap} {a b loc : Location}
    (moved : files.move a b = some files') (not_source : loc ≠ a) (not_target : loc ≠ b) :
    files' loc = files loc := by
  obtain ⟨id, -, -, rfl⟩ := move_eq_some.1 moved
  simp [not_source, not_target]

/-- The move back is possible and restores every location. -/
theorem move_back {files files' : FileMap} {a b : Location} (moved : files.move a b = some files') :
    files'.move b a = some files := by
  have apart := move_apart moved
  obtain ⟨id, there, free, rfl⟩ := move_eq_some.1 moved
  refine move_eq_some.2 ⟨id, by simp, by simp [apart], ?_⟩
  funext loc
  by_cases at_a : loc = a
  · simp [at_a, there]
  · by_cases at_b : loc = b
    · simp [at_b, apart.symm, free]
    · simp [at_a, at_b]

/-- Move the file at the place of one path to the place of another. -/
def step (place : Path → Option Location) (files : FileMap) (m : Path × Path) : Option FileMap := do
  let a ← place m.1
  let b ← place m.2
  files.move a b

/-- Move files one after the other. -/
def run (place : Path → Option Location) (moves : List (Path × Path)) (files : FileMap) :
    Option FileMap :=
  moves.foldlM (step place) files

variable {place : Path → Option Location}

theorem step_eq_some {files files' : FileMap} {m : Path × Path} :
    step place files m = some files' ↔
      ∃ a b, place m.1 = some a ∧ place m.2 = some b ∧ files.move a b = some files' := by
  simp [step, Option.bind_eq_some_iff]

/-- What a step does, at the places of its paths. -/
theorem step_eq_some' {files files' : FileMap} {m : Path × Path} :
    step place files m = some files' ↔
      ∃ a b id, place m.1 = some a ∧ place m.2 = some b ∧ files a = some id ∧ files b = none ∧
        files' = fun loc => if loc = b then some id else if loc = a then none else files loc := by
  simp only [step_eq_some, move_eq_some]
  constructor
  · rintro ⟨a, b, source, target, id, moved⟩
    exact ⟨a, b, id, source, target, moved⟩
  · rintro ⟨a, b, id, source, target, moved⟩
    exact ⟨a, b, source, target, id, moved⟩

@[simp] theorem run_nil (files : FileMap) : run place [] files = some files := rfl

@[simp] theorem run_cons (m : Path × Path) (rest : List (Path × Path)) (files : FileMap) :
    run place (m :: rest) files = (step place files m).bind (run place rest) := rfl

theorem run_append (front back : List (Path × Path)) (files : FileMap) :
    run place (front ++ back) files = (run place front files).bind (run place back) :=
  List.foldlM_append

theorem step_swap {files files' : FileMap} {m : Path × Path}
    (moved : step place files m = some files') : step place files' m.swap = some files := by
  obtain ⟨a, b, source, target, moved⟩ := step_eq_some.1 moved
  exact step_eq_some.2 ⟨b, a, target, source, move_back moved⟩

/-- Moves taken back in the opposite order restore every location. -/
theorem run_back {moves : List (Path × Path)} {files files' : FileMap}
    (moved : run place moves files = some files') :
    run place (moves.reverse.map Prod.swap) files' = some files := by
  induction moves generalizing files with
  | nil =>
      cases moved
      rfl
  | cons m rest ih =>
      obtain ⟨between, first, later⟩ := Option.bind_eq_some_iff.1 ((run_cons m rest files) ▸ moved)
      rw [List.reverse_cons, List.map_append, run_append, ih later]
      simp [step_swap first]

/-- Two runs one after the other are one. -/
theorem run_append_eq_some {front back : List (Path × Path)} {files files' : FileMap} :
    run place (front ++ back) files = some files' ↔
      ∃ between, run place front files = some between ∧ run place back between = some files' := by
  rw [run_append, Option.bind_eq_some_iff]

/-! ## Moves away from some locations -/

/-- No move has to do with some locations. -/
def MovesOff (place : Path → Option Location) (aside : Set Location) (moves : List (Path × Path)) :
    Prop :=
  ∀ m ∈ moves, ∀ loc, place m.1 = some loc ∨ place m.2 = some loc → loc ∉ aside

theorem MovesOff.reverse_swap {aside : Set Location} {moves : List (Path × Path)}
    (off : MovesOff place aside moves) : MovesOff place aside (moves.reverse.map Prod.swap) := by
  intro m member loc at_m
  obtain ⟨n, in_moves, rfl⟩ := List.mem_map.1 member
  exact off n (List.mem_reverse.1 in_moves) loc at_m.symm

/-- Two maps of files that agree but for some locations. -/
def AgreeOff (aside : Set Location) (files other : FileMap) : Prop :=
  ∀ loc, loc ∉ aside → other loc = files loc

theorem AgreeOff.symm {aside : Set Location} {files other : FileMap}
    (agree : AgreeOff aside files other) : AgreeOff aside other files :=
  fun loc off => (agree loc off).symm

theorem AgreeOff.trans {aside : Set Location} {files files' files'' : FileMap}
    (first : AgreeOff aside files files') (second : AgreeOff aside files' files'') :
    AgreeOff aside files files'' :=
  fun loc off => (second loc off).trans (first loc off)

/-- A move away from some locations is the same move whatever stands there, and leaves it. -/
theorem move_frame {aside : Set Location} {files files' other : FileMap} {a b : Location}
    (moved : files.move a b = some files') (source : a ∉ aside) (target : b ∉ aside)
    (agree : AgreeOff aside files other) :
    ∃ other', other.move a b = some other' ∧ AgreeOff aside files' other' ∧
      ∀ loc ∈ aside, other' loc = other loc := by
  obtain ⟨id, there, free, rfl⟩ := move_eq_some.1 moved
  refine ⟨_, move_eq_some.2 ⟨id, ?_, ?_, rfl⟩, fun loc off => ?_, fun loc inside => ?_⟩
  · rw [agree a source, there]
  · rw [agree b target, free]
  · simp only [agree loc off]
  · have not_target : loc ≠ b := fun same => target (same ▸ inside)
    have not_source : loc ≠ a := fun same => source (same ▸ inside)
    simp only [not_target, not_source, ↓reduceIte]

/-- Moves away from some locations do the same whatever stands there, and leave it. -/
theorem run_frame {aside : Set Location} {moves : List (Path × Path)} {files files' other : FileMap}
    (moved : run place moves files = some files') (off : MovesOff place aside moves)
    (agree : AgreeOff aside files other) :
    ∃ other', run place moves other = some other' ∧ AgreeOff aside files' other' ∧
      ∀ loc ∈ aside, other' loc = other loc := by
  induction moves generalizing files other with
  | nil =>
      cases moved
      exact ⟨other, rfl, agree, fun _ _ => rfl⟩
  | cons m rest ih =>
      obtain ⟨between, first, later⟩ := Option.bind_eq_some_iff.1 (run_cons m rest files ▸ moved)
      obtain ⟨a, b, source, target, step_moved⟩ := step_eq_some.1 first
      have off_rest : MovesOff place aside rest :=
        fun n member => off n (List.mem_cons_of_mem _ member)
      have off_m := off m List.mem_cons_self
      obtain ⟨between', moved', agree', left⟩ :=
        move_frame step_moved (off_m a (.inl source)) (off_m b (.inr target)) agree
      obtain ⟨other', run_rest, agree'', left'⟩ := ih later off_rest agree'
      refine ⟨other', ?_, agree'', fun loc inside => (left' loc inside).trans (left loc inside)⟩
      rw [run_cons, step_eq_some.2 ⟨a, b, source, target, moved'⟩]
      exact run_rest

/-- Every file stood somewhere before a move, and not aside unless it still does. -/
theorem move_origin {aside : Set Location} {files files' : FileMap} {a b loc : Location} {id : Nat}
    (moved : files.move a b = some files') (source : a ∉ aside) (there : files' loc = some id)
    (off : loc ∉ aside) : ∃ loc', loc' ∉ aside ∧ files loc' = some id := by
  obtain ⟨id', stood, -, rfl⟩ := move_eq_some.1 moved
  simp only at there
  split at there
  · exact ⟨a, source, stood.trans there⟩
  · split at there
    · cases there
    · exact ⟨loc, off, there⟩

/-- Every file that moves leave off some locations stood off them before. -/
theorem run_origin {aside : Set Location} {moves : List (Path × Path)} {files files' : FileMap}
    {loc : Location} {id : Nat} (moved : run place moves files = some files')
    (off : MovesOff place aside moves) (there : files' loc = some id) (off_loc : loc ∉ aside) :
    ∃ loc', loc' ∉ aside ∧ files loc' = some id := by
  induction moves generalizing files with
  | nil =>
      cases moved
      exact ⟨loc, off_loc, there⟩
  | cons m rest ih =>
      obtain ⟨between, first, later⟩ := Option.bind_eq_some_iff.1 (run_cons m rest files ▸ moved)
      obtain ⟨a, b, source, -, step_moved⟩ := step_eq_some.1 first
      obtain ⟨loc', off', stands⟩ := ih later fun n member => off n (List.mem_cons_of_mem _ member)
      exact move_origin step_moved (off m List.mem_cons_self a (.inl source)) stands off'

/-- Only the places of the paths that move count. -/
theorem run_congr {place' : Path → Option Location} {moves : List (Path × Path)}
    (same : ∀ m ∈ moves, place' m.1 = place m.1 ∧ place' m.2 = place m.2) (files : FileMap) :
    run place' moves files = run place moves files := by
  induction moves generalizing files with
  | nil => rfl
  | cons m rest ih =>
      obtain ⟨source, target⟩ := same m List.mem_cons_self
      have first : step place' files m = step place files m := by
        rw [step, step, source, target]
      rw [run_cons, run_cons, first]
      exact congrArg _ (funext fun between =>
        ih (fun n member => same n (List.mem_cons_of_mem _ member)) between)

/-! ## Moves at once -/

/-- Move the files of locations one after the other. -/
def moveAll (moves : List (Location × Location)) (files : FileMap) : Option FileMap :=
  moves.foldlM (fun files m => files.move m.1 m.2) files

@[simp] theorem moveAll_nil (files : FileMap) : moveAll [] files = some files := rfl

@[simp] theorem moveAll_cons (m : Location × Location) (rest : List (Location × Location))
    (files : FileMap) : moveAll (m :: rest) files = (files.move m.1 m.2).bind (moveAll rest) := rfl

theorem moveAll_append (front back : List (Location × Location)) (files : FileMap) :
    moveAll (front ++ back) files = (moveAll front files).bind (moveAll back) :=
  List.foldlM_append

/-- Moves between paths are moves between their places. -/
theorem run_eq_moveAll (loc : Path → Location) {moves : List (Path × Path)} {files : FileMap}
    (places : ∀ m ∈ moves, place m.1 = some (loc m.1) ∧ place m.2 = some (loc m.2)) :
    run place moves files = moveAll (moves.map (Prod.map loc loc)) files := by
  induction moves generalizing files with
  | nil => rfl
  | cons m rest ih =>
      obtain ⟨source, target⟩ := places m List.mem_cons_self
      have first : step place files m = files.move (loc m.1) (loc m.2) := by
        simp [step, source, target]
      rw [run_cons, first, List.map_cons, moveAll_cons]
      exact congrArg _ (funext fun between =>
        ih fun m member => places m (List.mem_cons_of_mem _ member))

/-- One map of files is another after all moves were made at once: every target has the
file of its source, sources that are no target have none, and elsewhere nothing changed. -/
structure Carried (moves : List (Location × Location)) (files files' : FileMap) : Prop where
  target : ∀ m ∈ moves, files' m.2 = files m.1
  source : ∀ m ∈ moves, (∀ n ∈ moves, n.2 ≠ m.1) → files' m.1 = none
  other : ∀ loc, (∀ m ∈ moves, m.1 ≠ loc ∧ m.2 ≠ loc) → files' loc = files loc

theorem Carried.nil (files : FileMap) : Carried [] files files where
  target _ member := by cases member
  source _ member := by cases member
  other _ _ := rfl

/-- A move comes before moves made at once when none of them takes or brings a file where
it did. -/
theorem Carried.cons {a b : Location} {moves : List (Location × Location)}
    {files between files' : FileMap} (moved : files.move a b = some between)
    (carried : Carried moves between files')
    (apart : ∀ m ∈ moves, m.1 ≠ a ∧ m.1 ≠ b ∧ m.2 ≠ b) : Carried ((a, b) :: moves) files files' := by
  have at_b : files' b = files a := by
    rw [carried.other b fun m member => (apart m member).2, move_target moved]
  refine ⟨fun m member => ?_, fun m member untouched => ?_, fun loc untouched => ?_⟩
  · rcases List.mem_cons.1 member with rfl | member
    · exact at_b
    · obtain ⟨not_a, not_b, -⟩ := apart m member
      rw [carried.target m member, move_other moved not_a not_b]
  · have later : ∀ n ∈ moves, n.2 ≠ m.1 := fun n inner => untouched n (List.mem_cons_of_mem _ inner)
    rcases List.mem_cons.1 member with rfl | member
    · rw [carried.other a fun n inner => ⟨(apart n inner).1, later n inner⟩, move_source moved]
    · exact carried.source m member later
  · obtain ⟨not_a, not_b⟩ := untouched (a, b) List.mem_cons_self
    rw [carried.other loc fun m member => untouched m (List.mem_cons_of_mem _ member),
      move_other moved (Ne.symm not_a) (Ne.symm not_b)]

/-- Moves from files to free locations that have nothing to do with one another can be
made one after the other. -/
theorem moveAll_of_apart {moves : List (Location × Location)} {files : FileMap}
    (sources : (moves.map Prod.fst).Nodup) (targets : (moves.map Prod.snd).Nodup)
    (there : ∀ m ∈ moves, files m.1 ≠ none) (free : ∀ m ∈ moves, files m.2 = none) :
    ∃ files', moveAll moves files = some files' ∧ Carried moves files files' := by
  induction moves generalizing files with
  | nil => exact ⟨files, rfl, .nil files⟩
  | cons m rest ih =>
      obtain ⟨a, b⟩ := m
      obtain ⟨id, source⟩ := Option.ne_none_iff_exists'.1 (there (a, b) List.mem_cons_self)
      have target := free (a, b) List.mem_cons_self
      obtain ⟨between, moved⟩ : ∃ between, files.move a b = some between :=
        ⟨_, move_eq_some.2 ⟨id, source, target, rfl⟩⟩
      simp only [List.map_cons, List.nodup_cons, List.mem_map, not_exists, not_and] at sources targets
      have apart : ∀ m ∈ rest, m.1 ≠ a ∧ m.1 ≠ b ∧ m.2 ≠ b := by
        intro m member
        refine ⟨sources.1 m member, ?_, targets.1 m member⟩
        rintro rfl
        exact there m (List.mem_cons_of_mem _ member) target
      have not_source : ∀ m ∈ rest, m.2 ≠ a := by
        rintro m member rfl
        exact there (m.2, b) List.mem_cons_self (free m (List.mem_cons_of_mem _ member))
      have still_there : ∀ m ∈ rest, between m.1 ≠ none := by
        intro m member
        rw [move_other moved (apart m member).1 (apart m member).2.1]
        exact there m (List.mem_cons_of_mem _ member)
      have still_free : ∀ m ∈ rest, between m.2 = none := by
        intro m member
        rw [move_other moved (not_source m member) (apart m member).2.2]
        exact free m (List.mem_cons_of_mem _ member)
      obtain ⟨files', later, carried⟩ := ih sources.2 targets.2 still_there still_free
      exact ⟨files', by rw [moveAll_cons, moved]; exact later, .cons moved carried apart⟩

/-! ## Moves in two phases -/

/-- Moves are made in two phases: each of them in the first phase, or in both by way of a location
aside, where no move begins or ends. -/
structure Staged (early late moves : List (Location × Location)) : Prop where
  whole : ∀ m ∈ moves, m ∈ early ∨ ∃ aside, (m.1, aside) ∈ early ∧ (aside, m.2) ∈ late
  of_early : ∀ k ∈ early, k ∈ moves ∨ ∃ target, (k.1, target) ∈ moves ∧ (k.2, target) ∈ late
  of_late : ∀ k ∈ late, (∃ m ∈ moves, m.2 = k.2) ∧ ∃ m ∈ early, m.2 = k.1
  aside : ∀ k ∈ late, ∀ m ∈ moves, k.1 ≠ m.1 ∧ k.1 ≠ m.2
  apart : ∀ k ∈ early, ∀ k' ∈ late, k.2 ≠ k'.2

section

variable {early late moves : List (Location × Location)} {files between files' : FileMap}

theorem Staged.exists_early (staged : Staged early late moves) {m : Location × Location}
    (member : m ∈ moves) : ∃ k ∈ early, k.1 = m.1 := by
  obtain direct | ⟨aside, leaves, -⟩ := staged.whole m member
  · exact ⟨m, direct, rfl⟩
  · exact ⟨_, leaves, rfl⟩

theorem Staged.exists_move (staged : Staged early late moves) {k : Location × Location}
    (member : k ∈ early) : ∃ m ∈ moves, m.1 = k.1 := by
  obtain direct | ⟨target, listed, -⟩ := staged.of_early k member
  · exact ⟨k, direct, rfl⟩
  · exact ⟨_, listed, rfl⟩

/-- Where the files are in place, and a target holds none unless a move begins there, the second
phase can be made after the first. -/
theorem Staged.moveAll_late (staged : Staged early late moves)
    (sources : (late.map Prod.fst).Nodup) (targets : (late.map Prod.snd).Nodup)
    (there : ∀ m ∈ moves, files m.1 ≠ none)
    (free : ∀ m ∈ moves, (∀ n ∈ moves, n.1 ≠ m.2) → files m.2 = none)
    (carried : Carried early files between) :
    ∃ files', moveAll late between = some files' ∧ Carried late between files' := by
  refine moveAll_of_apart sources targets (fun k member => ?_) fun k member => ?_
  · obtain ⟨-, n, brought, at_aside⟩ := staged.of_late k member
    obtain ⟨m, listed, same⟩ := staged.exists_move brought
    rw [← at_aside, carried.target n brought, ← same]
    exact there m listed
  · -- The first phase does not reach the target. So its own file has left it, or it never held one.
    have unreached : ∀ n ∈ early, n.2 ≠ k.2 := fun n inside => staged.apart n inside k member
    by_cases vacated : ∃ n ∈ early, n.1 = k.2
    · obtain ⟨n, leaves, same⟩ := vacated
      rw [← same] at unreached ⊢
      exact carried.source n leaves unreached
    · rw [carried.other k.2 fun n inside => ⟨fun same => vacated ⟨n, inside, same⟩, unreached n inside⟩]
      obtain ⟨⟨m, listed, at_target⟩, -⟩ := staged.of_late k member
      rw [← at_target] at vacated ⊢
      refine free m listed fun n begins same => vacated ?_
      obtain ⟨n', leaves, same'⟩ := staged.exists_early begins
      exact ⟨n', leaves, same'.trans same⟩

/-- Both phases together come to all moves made at once. -/
theorem Staged.carried (staged : Staged early late moves)
    (free : ∀ k ∈ late, files k.1 = none) (carried : Carried early files between)
    (carried' : Carried late between files') : Carried moves files files' where
  target m member := by
    obtain direct | ⟨aside, leaves, goes_on⟩ := staged.whole m member
    · have untouched : ∀ k ∈ late, k.1 ≠ m.2 ∧ k.2 ≠ m.2 := fun k inside =>
        ⟨(staged.aside k inside m member).2, (staged.apart m direct k inside).symm⟩
      rw [carried'.other _ untouched]
      exact carried.target m direct
    · exact (carried'.target _ goes_on).trans (carried.target _ leaves)
  source m member untaken := by
    have untouched : ∀ k ∈ late, k.1 ≠ m.1 ∧ k.2 ≠ m.1 := by
      intro k inside
      obtain ⟨⟨n, listed, at_target⟩, -⟩ := staged.of_late k inside
      exact ⟨(staged.aside k inside m member).1, at_target ▸ untaken n listed⟩
    rw [carried'.other _ untouched]
    obtain ⟨k, leaves, same⟩ := staged.exists_early member
    rw [← same]
    refine carried.source k leaves fun n inside => ?_
    obtain direct | ⟨target, -, goes_on⟩ := staged.of_early n inside
    · rw [same]
      exact untaken n direct
    · rw [same]
      exact (staged.aside _ goes_on m member).1
  other loc untouched := by
    have not_target : ∀ k ∈ late, k.2 ≠ loc := by
      intro k inside
      obtain ⟨⟨n, listed, at_target⟩, -⟩ := staged.of_late k inside
      exact at_target ▸ (untouched n listed).2
    by_cases passed : ∃ k ∈ late, k.1 = loc
    · -- A location aside was free before and is free again.
      obtain ⟨k, inside, rfl⟩ := passed
      rw [carried'.source k inside not_target, free k inside]
    · rw [carried'.other loc fun k inside =>
        ⟨fun same => passed ⟨k, inside, same⟩, not_target k inside⟩]
      refine carried.other loc fun k inside => ?_
      obtain direct | ⟨target, listed, goes_on⟩ := staged.of_early k inside
      · exact untouched k direct
      · exact ⟨(untouched _ listed).1, fun same => passed ⟨_, goes_on, same⟩⟩

end

end FileMap

end Renumber
