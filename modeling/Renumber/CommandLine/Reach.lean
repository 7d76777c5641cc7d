import Renumber.CommandLine.Run

/-!
# What a run looks at

A disk may be known in part only. The records of a run are the files that it reads. Its
questions are the paths at which it looks for something, as far as they show on the
part that is known: those of the command line and of the records, and those of the
deeds that follow from them. Making known what stands at them may bring up more.
-/

namespace Renumber.CommandLine

/-- A call in its world, with what surrounds it. -/
structure Setting where
  call : Call
  world : World
  env : Surroundings Prompt.Lines

/-- The setting of a command line that makes sense. -/
def setting? (inv : Invocation) (w : World) : Option Setting := do
  let call ← (understand w.clock inv.words).toOption
  let world := ((enter call).run.run w).2
  return ⟨call, world, surroundings inv call ((Settings.load world).toOption.getD {})⟩

/-- The paths that an order names. -/
def Order.paths : Order → List Path
  | rename paths _ _ _ _ => paths
  | touch paths _ _ _ _ _ => paths
  | nextCounter paths _ => paths
  | _ => []

namespace Setting

/-- Carry out an order. -/
def rehearse (s : Setting) (order : Order) : Except RequestFailure Answer × List Deed :=
  let (answer, scene) := (perform s.env order).run ⟨s.world, []⟩
  (answer, scene.world.deeds)

/-- The deeds that show where an order looks: a dry run looks where it would rename, and
a search for a counter looks where it would rename from that counter on. -/
def deeds (s : Setting) : List Deed :=
  match s.call.order with
  | .rename paths choice recursive unique _ =>
    (s.rehearse (.rename paths choice recursive unique false)).2
  | .nextCounter paths choice =>
    match s.rehearse s.call.order with
    | (.ok (.nextCounter _ _ n), _) =>
      (s.rehearse (.rename paths { choice with start := some n } false true false)).2
    | _ => []
  | order => (s.rehearse order).2

/-- The batches in the records. -/
def history (s : Setting) : List Batch :=
  let log := s.env.undoLog
  ((UndoLog.load log).run s.world).1 ++ ((UndoLog.load (UndoLog.redoPath log)).run s.world).1

end Setting

/-- The files that a run reads. -/
def records (inv : Invocation) (w : World) : List Path :=
  match setting? inv w with
  | none => []
  | some s =>
    [Settings.file s.world, s.env.undoLog, UndoLog.redoPath s.env.undoLog].map
      s.world.folder.join

/-- The paths at which a run looks for something. -/
def questions (inv : Invocation) (w : World) : List Path :=
  match setting? inv w with
  | none => []
  | some s =>
    let moved := (s.history.flatMap Batch.moves).flatMap fun (a, b) => [a, b]
    s.call.directory.toList.map w.folder.join ++
      (s.call.order.paths ++ moved).map s.world.folder.join ++ s.deeds.flatMap Deed.paths

end Renumber.CommandLine
