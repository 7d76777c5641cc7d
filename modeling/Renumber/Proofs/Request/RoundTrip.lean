import Renumber.Proofs.Request.Whole
import Renumber.Proofs.World.Sample

/-!
# There and back

A request to rename, a request to undo it and a request to redo it are three sessions that have
only the disk in common. Where the renames go between places of their own, away from the logs,
the first moves every file as it says, the second moves every file back, and the third moves
them again.
-/

namespace Renumber

open Disk (addressOf)
open Outcome
open Surroundings
open UndoLog (EndsWith asRead)

variable {σ : Type} {env : Surroundings σ} {b : Batch} {log : Path} {moves : List (Path × Path)}
  {u w w' : World}

namespace Surroundings

/-- A ready world in which a batch stands last in a log, and some moves are possible. -/
structure Poised (env : Surroundings σ) (log : Path) (b : Batch) (moves : List (Path × Path))
    (w : World) : Prop where
  ready : env.Ready w
  movable : b.Movable env w
  possible : ∃ after, FileMap.run w.place? moves w.files = some after
  newest : ∃ content, w.Holds (addressOf w.cwd log) content ∧ EndsWith content b

/-- Where files moved, they can move back. -/
theorem Steady.possible_back (steady : env.Steady u w)
    (clear : ∀ m ∈ moves, env.Clear u m.1 ∧ env.Clear u m.2)
    (shifts : World.Shifts (env.logPlaces u.cwd) u.place? moves u w) :
    ∃ after, FileMap.run w.place? (moves.reverse.map Prod.swap) w.files = some after := by
  obtain ⟨after, run⟩ := shifts.possible_back (movesOff clear)
  refine ⟨after, ?_⟩
  rw [← run]
  refine FileMap.run_congr (fun m member => ?_) _
  obtain ⟨n, in_moves, rfl⟩ := List.mem_map.1 member
  obtain ⟨source, target⟩ := clear n (List.mem_reverse.1 in_moves)
  exact ⟨(steady.2 _ target).2, (steady.2 _ source).2⟩

/-- Files that moved from one world to the next moved in the same way as seen from an earlier
world. -/
theorem Steady.shifts (steady : env.Steady u w)
    (clear : ∀ m ∈ moves, env.Clear u m.1 ∧ env.Clear u m.2)
    (shifts : World.Shifts (env.logPlaces w.cwd) w.place? moves w w') :
    World.Shifts (env.logPlaces u.cwd) u.place? moves w w' := by
  rw [steady.1] at shifts
  obtain ⟨after, moved, agree⟩ := shifts.files
  refine ⟨⟨after, ?_, agree⟩, shifts.data⟩
  rw [← moved]
  refine (FileMap.run_congr (fun m member => ?_) _).symm
  obtain ⟨source, target⟩ := clear m member
  exact ⟨(steady.2 _ source).2, (steady.2 _ target).2⟩

end Surroundings

/-! ## The next process -/

namespace World

/-- Another process finds the disk as it was left, in the same working folder. -/
structure Resumes (w w' : World) : Prop where
  disk : w'.disk = w.disk
  cwd : w'.cwd = w.cwd

variable {loc : Location} {p : Path}

theorem Resumes.site (resumes : w.Resumes w') (site : w.Site p loc) : w'.Site p loc := by
  rw [Site, resumes.disk, resumes.cwd]
  exact site

theorem Resumes.slot (resumes : w.Resumes w') (slot : w.Slot p loc) : w'.Slot p loc := by
  rw [Slot, resumes.disk, resumes.cwd]
  exact slot

theorem Resumes.files (resumes : w.Resumes w') : w'.files = w.files := by
  rw [World.files, World.files, resumes.disk]

theorem Resumes.steady (resumes : w.Resumes w') : env.Steady w w' :=
  steady_of_site resumes.cwd fun _ _ site _ => resumes.site site

theorem Resumes.ready (resumes : w.Resumes w') (ready : env.Ready w) : env.Ready w' where
  plain := by
    rw [resumes.disk]
    exact ready.plain
  working := by
    rw [resumes.disk, resumes.cwd]
    exact ready.working
  slot p member := by
    rw [resumes.cwd]
    exact resumes.slot (ready.slot p member)
  undoable := by
    rw [resumes.disk, resumes.cwd]
    exact ready.undoable
  redoable := by
    rw [resumes.disk, resumes.cwd]
    exact ready.redoable
  apart := by
    rw [resumes.cwd]
    exact ready.apart

theorem Resumes.shifts {logs : Set Location} {place : Path → Option Location}
    (resumes : w.Resumes w') {x : World} (shifts : Shifts logs place moves w' x) :
    Shifts logs place moves w x := by
  obtain ⟨⟨after, moved, agree⟩, data⟩ := shifts
  rw [resumes.files] at moved data
  rw [resumes.disk] at data
  exact ⟨⟨after, moved, agree⟩, data⟩

end World

theorem Batch.Movable.steady (steady : env.Steady u w) (movable : b.Movable env u) :
    b.Movable env w where
  clear := movable.clear.mono fun p clear => (steady.2 p clear).1
  text := movable.text
  some_command := movable.some_command

theorem World.Resumes.poised (resumes : w.Resumes w') (poised : env.Poised log b moves w)
    (clear : ∀ m ∈ moves, env.Clear w m.1 ∧ env.Clear w m.2) : env.Poised log b moves w' where
  ready := resumes.ready poised.ready
  movable := poised.movable.steady resumes.steady
  possible := by
    obtain ⟨after, run⟩ := poised.possible
    refine ⟨after, ?_⟩
    rw [resumes.files, ← run]
    refine FileMap.run_congr (fun m member => ?_) _
    obtain ⟨source, target⟩ := clear m member
    exact ⟨(resumes.steady.2 _ source).2, (resumes.steady.2 _ target).2⟩
  newest := by
    obtain ⟨content, ⟨id, data, there, known, holds⟩, ends⟩ := poised.newest
    refine ⟨content, ⟨id, data, ?_, ?_, holds⟩, ends⟩
    · rw [resumes.files, resumes.cwd]
      exact there
    · rw [resumes.disk]
      exact known

/-- Whatever process finds the disk as it was left in a world, and is not stopped, carries out a
request as a whole; afterwards the world has a property. -/
def Surroundings.TurnsLater (env : Surroundings σ) (turn : Request σ StepAnswer) (w : World)
    (property : World → Prop) : Prop :=
  ∀ scene : Scene σ, w.Resumes scene.world →
    env.heedsStop = false ∨ scene.world.interrupt = none →
    ∃ answer scene', turn.run.run scene = (.ok answer, scene') ∧ answer.isPartial = false ∧
      property scene'.world

namespace Request

variable {scene : Scene σ}

theorem movesUndone_back (b : Batch) : (b.movesUndone.reverse.map Prod.swap) = b.moves := by
  rw [Batch.movesUndone, ← List.map_reverse, List.reverse_reverse, List.map_map]
  exact List.map_id _

/-- Undoing leaves the world poised to redo. -/
theorem undo_poised (poised : env.Poised env.undoLog b b.movesUndone scene.world)
    (unstopped : env.heedsStop = false ∨ scene.world.interrupt = none) :
    ∃ answer scene', (undo env).run.run scene = (.ok answer, scene') ∧ answer.isPartial = false ∧
      World.Shifts (env.logPlaces scene.world.cwd) scene.world.place? b.movesUndone scene.world
        scene'.world ∧
      env.Steady scene.world scene'.world ∧
      env.Poised (UndoLog.redoPath env.undoLog) (asRead b) b.moves scene'.world := by
  obtain ⟨content, holds, ends⟩ := poised.newest
  obtain ⟨answer, scene', ran, whole, shifts, ready, steady, newest⟩ :=
    undo_whole poised.ready unstopped holds ends poised.movable poised.possible
  have clear : ∀ m ∈ b.movesUndone, env.Clear scene.world m.1 ∧ env.Clear scene.world m.2 :=
    clear_back fun m member => poised.movable.clear.of_mem_moves member
  have possible := steady.possible_back clear shifts
  rw [movesUndone_back] at possible
  rw [← steady.1] at newest
  exact ⟨answer, scene', ran, whole, shifts, steady, ready,
    poised.movable.asRead.steady steady, possible, newest⟩

end Request

namespace RenameRequest

variable {req : RenameRequest} {intent : Intent} {scene scene' : Scene σ} {answer : RenameAnswer}
  {report : Report}

/-- What a request shows is one of its sources with the destination that is wanted for it. -/
theorem exists_of_mem_shown {pairs : PathPairs} {e : RenameEntry} (member : e ∈ req.shown pairs) :
    ∃ source ∈ req.sources, ∃ m ∈ pairs.entries, m.1.components = source.components ∧
      e = ⟨source.display, m.2.display⟩ := by
  obtain ⟨source, listed, found⟩ := List.mem_filterMap.1 member
  obtain ⟨target, look, rfl⟩ := Option.map_eq_some_iff.1 found
  obtain ⟨m, at_source, rfl⟩ := Option.map_eq_some_iff.1 look
  obtain ⟨in_pairs, same⟩ := PathMap.mem_of_findItem? at_source
  exact ⟨source, listed, m, in_pairs, Path.same_iff.1 same, rfl⟩

/-- What was at a source that is shown is at the destination shown for it, once the moves of the
plan have been made. -/
theorem Suits.shown_brought (suits : Suits env req intent u) (member : ∀ m ∈ intent.pairs.entries, m.1 ∈ req.sources)
    (planned : Plan.strict u.present false intent.pairs = .ok intent.plan)
    (steady : env.Steady u w)
    (shifts : World.Shifts (env.logPlaces u.cwd) u.place? intent.plan.moves u w) {e : RenameEntry}
    (shown : e ∈ req.shown intent.pairs) :
    ∃ data, u.fileData? (.ofString e.source) = some data ∧
      w.fileData? (.ofString e.target) = some data := by
  obtain ⟨source, listed, m, in_pairs, spelled, rfl⟩ := exists_of_mem_shown shown
  have in_paths : ∀ p ∈ req.sources, p ∈ req.paths intent :=
    fun p listed => List.mem_append_left _ (List.mem_append_left _ listed)
  have target_in_paths : ∀ n ∈ intent.pairs.entries, n.2 ∈ req.paths intent := fun n in_pairs =>
    List.mem_append_left _ (List.mem_append_right _ (List.mem_map_of_mem in_pairs))
  have sites := suits.flat.site (in_paths _ listed)
  -- The paths are shown as they are.
  have source_text := suits.text source (List.mem_append_left _ listed)
  have target_text := suits.text m.2 (List.mem_append_right _ (List.mem_map_of_mem in_pairs))
  simp only [Path.ofString_display source_text, Path.ofString_display target_text]
  obtain ⟨files', moved, carried⟩ := Plan.exists_run_moves planned
    (suits.flat.mono fun p member => mem_paths_of_plan member)
    fun n changes => suits.there _ (member n (List.mem_of_mem_filter changes))
  have brought := Plan.brought planned suits.flat
    (fun n in_pairs => ⟨in_paths _ (member n in_pairs), target_in_paths n in_pairs⟩)
    (fun n in_pairs => suits.there _ (member n in_pairs)) carried in_pairs
  have one_place : u.locationOf m.1 = u.locationOf source :=
    (suits.flat.locationOf_eq_iff (in_paths _ (member m in_pairs)) (in_paths _ listed)).2 spelled
  rw [one_place] at brought
  have source_clear := suits.clear (in_paths _ listed)
  have target_clear := suits.clear (target_in_paths m in_pairs)
  have target_place := suits.flat.place_eq (target_in_paths m in_pairs)
  have data := shifts.dataAt? moved brought (source_clear.off sites.place)
    (target_clear.off target_place)
  obtain ⟨still, same_place⟩ := steady.2 _ target_clear
  have at_target : w.fileData? m.2 = w.dataAt? (u.locationOf m.2) :=
    World.fileData?_of_flatAt still.flatAt (same_place.trans target_place)
  rw [at_target, data, World.fileData?_of_site sites]
  -- There is a file at the source, and its data are known.
  have present := suits.there source listed
  rw [World.present_of_flatAt sites.flatAt sites.place] at present
  obtain ⟨id, there⟩ := Option.isSome_iff_exists.1 present
  obtain ⟨data, known⟩ := Option.isSome_iff_exists.1 (suits.plain.known _ _ there).2
  exact ⟨data, by rw [World.dataAt?, there]; exact known, by rw [World.dataAt?, there]; exact known⟩

/-- A request to rename that suits the world and runs anything runs as a whole, and brings every
file to the destination that it shows. A request to undo it, in a later process, undoes it as a
whole, and every location that is not a log's holds what it held at first. A request to redo that,
in a still later process, redoes it as a whole, and every such location holds what it held after
the renames. -/
theorem rename_undo_redo (intended : ((req.intend env).run.run scene).1 = .ok intent)
    (suits : Suits env req intent scene.world)
    (unstopped : env.heedsStop = false ∨ scene.world.interrupt = none)
    (ran : (req.run env).run.run scene = (.ok answer, scene')) (reported : answer.report = some report)
    (some_ran : 0 < report.executed) :
    report.isComplete = true ∧
      (∀ e ∈ answer.renames, ∃ data, scene.world.fileData? (.ofString e.source) = some data ∧
        scene'.world.fileData? (.ofString e.target) = some data) ∧
      env.TurnsLater (Request.undo env) scene'.world fun w =>
        (∀ loc, loc ∉ env.logPlaces scene.world.cwd → w.dataAt? loc = scene.world.dataAt? loc) ∧
        env.TurnsLater (Request.redo env) w fun w' =>
          ∀ loc, loc ∉ env.logPlaces scene.world.cwd → w'.dataAt? loc = scene'.world.dataAt? loc := by
  obtain ⟨shown, complete, b, moves, movable, renamed, ready, steady, newest⟩ :=
    run_whole intended suits unstopped ran reported some_ran
  obtain ⟨planned, of_sources⟩ := intend_ok intended
  have clear : ∀ m ∈ b.moves, env.Clear scene.world m.1 ∧ env.Clear scene.world m.2 := by
    rw [moves]
    exact fun m member => suits.clear_moves member
  have clear_undone : ∀ m ∈ b.movesUndone, env.Clear scene.world m.1 ∧ env.Clear scene.world m.2 :=
    clear_back clear
  refine ⟨complete, fun e member => ?_, fun scene₂ resumes unstopped₂ => ?_⟩
  · rw [shown] at member
    rw [moves] at renamed
    exact suits.shown_brought of_sources planned steady renamed member
  rw [← steady.1] at newest
  have poised : env.Poised env.undoLog b b.movesUndone scene'.world :=
    ⟨ready, movable, steady.possible_back clear renamed, newest⟩
  have poised₂ :=
    resumes.poised poised (clear_back fun m member => movable.clear.of_mem_moves member)
  have steady₂ := steady.trans resumes.steady
  obtain ⟨undone, scene₃, ran₃, whole₃, shifts₃, steady₃, poised₃⟩ :=
    Request.undo_poised poised₂ unstopped₂
  have back := resumes.shifts (steady₂.shifts clear_undone shifts₃)
  refine ⟨undone, scene₃, ran₃, whole₃, fun loc off => renamed.back (movesOff clear) back off,
    fun scene₄ resumes' unstopped₄ => ?_⟩
  have steady₄ := (steady₂.trans steady₃).trans resumes'.steady
  have poised₄ := resumes'.poised poised₃ fun m member => poised₃.movable.clear.of_mem_moves member
  obtain ⟨content, holds, ends⟩ := poised₄.newest
  obtain ⟨redone, scene₅, ran₅, whole₅, shifts₅, -⟩ :=
    Request.redo_whole poised₄.ready unstopped₄ holds ends poised₄.movable poised₄.possible
  have again := resumes'.shifts (steady₄.shifts clear shifts₅)
  rw [← Request.movesUndone_back b] at again
  exact ⟨redone, scene₅, ran₅, whole₅, fun loc off => back.back (movesOff clear_undone) again off⟩

/-- Surroundings for small worlds, with both logs beside the files. -/
def sampleSurroundings : Surroundings Unit where
  settings := {}
  undoLog := .ofString "/w/undo"
  operationLog := some (.ofString "/w/log")
  policy := .fixed false
  heedsStop := true

/-- Two files that are to change places. -/
def swapRequest : RenameRequest where
  sources := [.ofString "/w/x2", .ofString "/w/x1"]
  pattern := some "x#"

def swapScene : Scene Unit :=
  ⟨World.sample [("x1", "first"), ("x2", "second")], ()⟩

theorem rename_undo_redo_swapped : ∃ intent answer report scene',
    ((swapRequest.intend sampleSurroundings).run.run swapScene).1 = .ok intent ∧
      Suits sampleSurroundings swapRequest intent swapScene.world ∧
      (swapRequest.run sampleSurroundings).run.run swapScene = (.ok answer, scene') ∧
      answer.report = some report ∧ 0 < report.executed ∧
      report.isComplete = true ∧
      (∀ e ∈ answer.renames, ∃ data, swapScene.world.fileData? (.ofString e.source) = some data ∧
        scene'.world.fileData? (.ofString e.target) = some data) ∧
      sampleSurroundings.TurnsLater (Request.undo sampleSurroundings) scene'.world fun w =>
        (∀ loc, loc ∉ sampleSurroundings.logPlaces swapScene.world.cwd →
          w.dataAt? loc = swapScene.world.dataAt? loc) ∧
        sampleSurroundings.TurnsLater (Request.redo sampleSurroundings) w fun w' =>
          ∀ loc, loc ∉ sampleSurroundings.logPlaces swapScene.world.cwd →
            w'.dataAt? loc = scene'.world.dataAt? loc := by
  let paths : List Path :=
    [.ofString "/w/x2", .ofString "/w/x1", .ofString "/w/x2", .ofString "/w/x1",
      .ofString "/w/x1", .ofString "/w/x2[1]", .ofString "/w/x2", .ofString "/w/x1",
      .ofString "/w/x2[1]", .ofString "/w/x2"]
  obtain ⟨intent, intended, about⟩ := exists_of_toOption
    (show ((swapRequest.intend sampleSurroundings).run.run swapScene).1.toOption.map
      (swapRequest.paths ·) = some paths by decide +kernel)
  obtain ⟨answer, answered, account⟩ := exists_of_toOption
    (show ((swapRequest.run sampleSurroundings).run.run swapScene).1.toOption.map
      (fun answer => answer.report.map Report.executed) = some (some 3) by decide +kernel)
  obtain ⟨report, reported, executed⟩ := Option.map_eq_some_iff.1 account
  have ran : (swapRequest.run sampleSurroundings).run.run swapScene = (.ok answer, _) :=
    Prod.ext answered rfl
  have some_ran : 0 < report.executed := by
    rw [executed]
    decide
  have texts : ∀ p ∈ paths, p.IsText := by decide +kernel
  have vacant : swapScene.world.disk.fileAt?
      (addressOf swapScene.world.cwd sampleSurroundings.undoLog) = none := by decide +kernel
  have suits : Suits sampleSurroundings swapRequest intent swapScene.world := by
    refine ⟨by decide +kernel, by decide +kernel, ?_, by decide +kernel, fun p member => ?_, ?_,
      ⟨by decide +kernel, by decide +kernel⟩, fun id there => ?_, ?_⟩
    · rw [about]
      decide +kernel
    · exact texts p (about ▸ List.mem_append_left _ member)
    · rw [about]
      decide +kernel
    · rw [vacant] at there
      cases there
    · rintro p (rfl | own)
      · decide +kernel
      · cases own
        decide +kernel
  exact ⟨intent, answer, report, _, intended, suits, ran, reported, some_ran,
    rename_undo_redo intended suits (.inr rfl) ran reported some_ran⟩

/-- How many commands of a request ran, and whether these were all. -/
def account (env : Surroundings σ) (req : RenameRequest) (scene : Scene σ) : Option (Nat × Bool) :=
  ((req.run env).run.run scene).1.toOption.bind fun answer =>
    answer.report.map fun report => (report.executed, report.isComplete)

/-- The sources are files, and the folders of all destinations are there. -/
def isFounded (env : Surroundings σ) (req : RenameRequest) (scene : Scene σ) : Bool :=
  req.sources.all (fun p => (scene.world.fileData? p).isSome) &&
    ((req.intend env).run.run scene).1.toOption.any fun intent =>
      intent.pairs.entries.all fun m => m.2.parent?.any scene.world.isFolder

/-- One file that is to get another name. -/
def onceRequest : RenameRequest where
  sources := [.ofString "/w/a"]
  pattern := some "b#"

/-- Two ways to that file. -/
def twiceRequest : RenameRequest where
  sources := [.ofString "/w/a", .ofString "/w/d/../a"]
  pattern := some "b#"

/-- A pattern that ends in a separator. -/
def slashRequest : RenameRequest where
  sources := [.ofString "/w/f.txt", .ofString "/w/g"]
  pattern := some "a#/"

/-- Surroundings where the undo log is to be below a file. -/
def belowSurroundings : Surroundings Unit :=
  { sampleSurroundings with undoLog := .ofString "/w/a/undo", operationLog := none }

/-- The sample file is the undo log as well, under another name. -/
def linkedScene : Scene Unit :=
  let w := World.sample [("a", "first")]
  ⟨{ w with disk := w.disk.put (sampleFolder ++ [Text.bytesOf "undo"]) (.file 0) }, ()⟩

/-- A destination that ends in a separator and two ways to one file leave the run incomplete; behind
a log below a source the way back is closed; a log that has another name is written over; and from a
log that cannot be read nothing is undone. -/
theorem not_rename_undo_redo :
    (let scene : Scene Unit :=
      ⟨(World.sample [("f.txt", "first"), ("g", "second")]).withFolder "a1", ()⟩
    isFounded sampleSurroundings slashRequest scene = true ∧
      account sampleSurroundings slashRequest scene = some (1, false)) ∧
    (let scene : Scene Unit := ⟨(World.sample [("a", "first")]).withFolder "d", ()⟩
    isFounded sampleSurroundings twiceRequest scene = true ∧
      account sampleSurroundings twiceRequest scene = some (1, false)) ∧
    (let scene : Scene Unit := ⟨World.sample [("a", "first")], ()⟩
    let scene' := ((onceRequest.run belowSurroundings).run.run scene).2
    isFounded belowSurroundings onceRequest scene = true ∧
      account belowSurroundings onceRequest scene = some (1, true) ∧
      ((Request.undo belowSurroundings).run.run scene').1.toOption.map StepAnswer.isPartial =
        some true) ∧
    (let scene' := ((onceRequest.run sampleSurroundings).run.run linkedScene).2
    isFounded sampleSurroundings onceRequest linkedScene = true ∧
      account sampleSurroundings onceRequest linkedScene = some (1, true) ∧
      (scene'.world.fileData? (.ofString "/w/b1")).map FileData.content ≠
        (linkedScene.world.fileData? (.ofString "/w/a")).map FileData.content) ∧
    (let scene : Scene Unit :=
      ⟨(World.sample [("a", "first"), ("undo", "")]).withUnreadable "undo", ()⟩
    let scene' := ((onceRequest.run sampleSurroundings).run.run scene).2
    isFounded sampleSurroundings onceRequest scene = true ∧
      account sampleSurroundings onceRequest scene = some (1, true) ∧
      ((Request.undo sampleSurroundings).run.run scene').1.toOption.isNone = true) := by
  refine ⟨?_, ?_, ?_, ?_, ?_⟩
  all_goals decide +kernel

end RenameRequest

end Renumber
