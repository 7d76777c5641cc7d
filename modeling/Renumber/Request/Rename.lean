import Renumber.Answer.Basic
import Renumber.Request.Basic

/-!
# Requests to rename

The sources are numbered in the order given, the renames are planned, and unless it is
a dry run they are carried out as one batch. What the request leaves open follows from
the settings.
-/

namespace Renumber

/-- What to rename, and how. -/
structure RenameRequest where
  sources : List Path
  pattern : Option String := none
  start : Option Nat := none
  folder : Option Path := none
  unique : Option Bool := none
  dryRun : Bool := false

namespace RenameRequest

variable {σ : Type}

/-- The options of the numbering. -/
def options (req : RenameRequest) (settings : Settings) (caseInsensitive : Bool) :
    NumberingOptions :=
  let usual := settings.numberingOptions
  { usual with
    start := req.start.getD usual.start
    unique := req.unique.getD usual.unique
    folder := req.folder
    caseInsensitive }

/-- The wanted renames as shown, in the order of the sources. -/
def shown (req : RenameRequest) (pairs : PathPairs) : List RenameEntry :=
  req.sources.filterMap fun source =>
    (pairs.find? source).map fun target => ⟨source.display, target.display⟩

/-- Carry out a request to rename. -/
def run (env : Surroundings σ) (req : RenameRequest) : Request σ RenameAnswer := do
  let pattern := req.pattern.getD env.settings.defaults.pattern
  env.inSession req.sources do
    let options := req.options env.settings (← get).session.caseInsensitive
    let made := Numbering.make (.parse pattern.toList) options
    let numbering ← made.mapError (RequestFailure.cannotRename pattern)
    let numbered ← Surroundings.step (Session.generate .plain numbering)
    let plan ← Surroundings.step Session.plan
    let pairs := (← modifyGet Sitting.renameItems).pairs
    let answer : RenameAnswer :=
      { pattern
        renames := req.shown pairs
        staged := (plan.steps.filter (·.phase = .staged)).length
        nextCounter := numbered.nextCounter
        dryRun := req.dryRun
        warnings := numbered.warnings.map fun (path, w) => path.display ++ ": " ++ w.message
        report := none }
    if req.dryRun || answer.renames.isEmpty then return answer
    let c ← env.beginRun
      ("Renaming " ++ toString answer.renames.length ++ " files with pattern '" ++ pattern ++ "'")
    discard <| Surroundings.step (Session.commitRenames c)
    return { answer with report := some (← Surroundings.endRun) }

end RenameRequest

end Renumber
