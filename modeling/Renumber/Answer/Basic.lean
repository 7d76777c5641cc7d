import Renumber.Run.Report

/-!
# Answers

What a request has to say when it was carried out. Everything is already in the form in
which it is shown: paths as readable text, times to the second.
-/

namespace Renumber

/-- A rename as shown. -/
structure RenameEntry where
  source : String
  target : String
  deriving DecidableEq, Repr

/-- The answer to a request to rename. The report is missing when nothing was run. -/
structure RenameAnswer where
  pattern : String
  renames : List RenameEntry
  /-- How many files step aside on the way. -/
  staged : Nat
  nextCounter : Nat
  dryRun : Bool
  warnings : List String
  report : Option Report
  deriving DecidableEq, Repr

/-- A touched file as shown. -/
structure TouchEntry where
  path : String
  changes : List String
  deriving DecidableEq, Repr

/-- The answer to a request to touch. -/
structure TouchAnswer where
  files : List TouchEntry
  dryRun : Bool
  report : Option Report
  deriving DecidableEq, Repr

/-- The answer to a request to undo or redo. -/
structure StepAnswer where
  /-- The kind of the batch, or a word for none. -/
  kind : String
  description : String
  commands : Nat
  /-- A part of the batch was left where it was. -/
  isPartial : Bool
  report : Report
  deriving DecidableEq, Repr

/-- A batch of the history as shown. -/
structure HistoryEntry where
  stack : String
  kind : String
  time : Option String
  description : String
  commands : Nat
  deriving DecidableEq, Repr

/-- What a request has to say. -/
inductive Answer where
  | rename (answer : RenameAnswer)
  | touch (answer : TouchAnswer)
  | undo (answer : StepAnswer)
  | redo (answer : StepAnswer)
  | history (entries : List HistoryEntry)
  /-- The first free counter for a pattern, and where the search began. -/
  | nextCounter (pattern : String) (start next : Nat)
  /-- The counter in a name. -/
  | counterIn (name pattern : String) (counter : Option Nat)
  | version (name number : String)
  deriving DecidableEq, Repr

/-- The report of the run behind an answer, if there was one. -/
def Answer.report? : Answer → Option Report
  | rename answer => answer.report
  | touch answer => answer.report
  | undo answer => some answer.report
  | redo answer => some answer.report
  | _ => none

end Renumber
