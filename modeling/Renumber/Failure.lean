import Renumber.Disk.Fault
import Renumber.Plan.Conflict

/-!
# Failures

The causes for which a request fails, and their wording. A failure that goes back to
the disk names its cause behind its own words.
-/

namespace Renumber

/-- Why a request failed. -/
inductive Failure where
  /-- The pattern can never tell names apart. -/
  | unusablePattern (pattern : String)
  /-- Every decorator up to the greatest led to a taken name. -/
  | noUniqueName (path : Path) (most : Nat)
  /-- No starting counter keeps the batch free of collisions. -/
  | noFreeCounter (start most : Nat)
  /-- Destinations that cannot be used. -/
  | conflicts (all : List Conflict)
  /-- A source that was given twice. -/
  | notDistinct (path : Path)
  /-- No free name for a file that has to step aside. -/
  | noIntermediate (path : Path)
  /-- A file could not be moved. -/
  | renameFailed (source target : Path) (cause : DiskFault)
  /-- A file's state could not be written. -/
  | touchFailed (path : Path) (cause : DiskFault)
  /-- A file's state could not be read. -/
  | unreadable (path : Path) (cause : DiskFault)
  /-- An edit names a source that is not in the working set. -/
  | unknownItem (path : Path)
  /-- An edit without a working set. -/
  | noWorkingSet
  deriving DecidableEq, Repr

namespace Failure

/-- The failure's own words. -/
def message : Failure → String
  | unusablePattern pattern =>
    "invalid pattern '" ++ pattern ++ "': it needs a counter (#, %d) or a wildcard (*, ?)"
  | noUniqueName path most =>
    "could not find a unique name for " ++ path.display ++ " after " ++ toString most ++
      " attempts"
  | noFreeCounter start most =>
    "no collision-free starting counter between " ++ toString start ++ " and " ++ toString most
  | conflicts all =>
    "found " ++ toString all.length ++ " rename conflict(s):\n" ++
      "\n".intercalate (all.map Conflict.message)
  | notDistinct path =>
    "working set is not distinct: " ++ path.display ++ " appears more than once"
  | noIntermediate path => "could not find a free intermediate name for " ++ path.display
  | renameFailed source target _ =>
    "failed to rename " ++ source.display ++ " to " ++ target.display
  | touchFailed path _ => "failed to update " ++ path.display
  | unreadable path _ => "I/O error while accessing " ++ path.display
  | unknownItem path => "no item for " ++ path.display ++ " in the working set"
  | noWorkingSet => "edit commands need a working set"

/-- The disk's cause of a failure. -/
def cause? : Failure → Option DiskFault
  | renameFailed _ _ cause => some cause
  | touchFailed _ cause => some cause
  | unreadable _ cause => some cause
  | _ => none

/-- The words of a failure and of its cause. -/
def detailed (f : Failure) : String :=
  match f.cause? with
  | some cause => f.message ++ ": " ++ cause.message
  | none => f.message

end Failure

end Renumber
