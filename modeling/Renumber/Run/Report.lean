/-!
# Reports of runs

What became of the commands of a run: how many there were, how many ran, which failed
and how many were never tried. Every command is counted once.
-/

namespace Renumber

/-- A command that failed and was given up. -/
structure FailedItem where
  description : String
  error : String
  deriving DecidableEq, Repr

/-- The account of one run, or of several on one context. -/
structure Report where
  total : Nat := 0
  executed : Nat := 0
  failed : List FailedItem := []
  /-- Commands that were never tried. -/
  skipped : Nat := 0
  aborted : Bool := false
  cancelled : Bool := false
  deriving DecidableEq, Repr

namespace Report

/-- Every command ran. -/
def isComplete (r : Report) : Bool :=
  r.executed == r.total

/-- How many commands did not run. -/
def incomplete (r : Report) : Nat :=
  r.total - r.executed

/-- The account in words, one line for each failed command. -/
def summary (r : Report) : String :=
  let head := toString r.executed ++ " of " ++ toString r.total ++ " operations completed"
  if r.incomplete = 0 then head
  else
    let lines := r.failed.map fun item => "\n  " ++ item.description ++ ": " ++ item.error
    let reason := if r.cancelled then "cancelled" else "aborted"
    let rest :=
      if r.skipped > 0 then
        "\n  " ++ toString r.skipped ++ " more not attempted (" ++ reason ++ ")"
      else ""
    head ++ "; the following " ++ toString r.incomplete ++ " did not:" ++ String.join lines ++ rest

end Report

end Renumber
