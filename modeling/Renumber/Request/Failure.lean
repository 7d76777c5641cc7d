import Renumber.Failure

/-!
# Failed requests

Why a request as a whole failed. Some failures add words about what was being done to
the failure of a part of it; the full text has both.
-/

namespace Renumber

/-- Why a request failed. -/
inductive RequestFailure where
  /-- Some part failed; there is nothing to add. -/
  | part (failure : Failure)
  /-- Files cannot be renamed with this pattern. -/
  | cannotRename (pattern : String) (failure : Failure)
  /-- Files cannot be numbered with this pattern. -/
  | cannotNumber (pattern : String) (failure : Failure)
  /-- The operation log cannot be opened. -/
  | operationLog (path : Path) (fault : DiskFault)
  /-- The undo log cannot be written. -/
  | undoLog (path : Path) (fault : DiskFault)
  /-- A folder cannot be read. -/
  | unreadableFolder (path : Path) (cause : String)
  /-- There is no batch to undo. -/
  | nothingToUndo
  /-- There is no batch to redo. -/
  | nothingToRedo
  /-- No files were given. -/
  | noFiles
  /-- A path cannot be written as text. -/
  | notText (path : Path)
  /-- Nothing is at a path. -/
  | notFound (path : Path)
  /-- A text that is no time. -/
  | badTime (text : String)
  /-- Some commands of a batch did not run. -/
  | incomplete (left total : Nat)
  deriving DecidableEq, Repr

namespace RequestFailure

/-- The outermost words of a failure. -/
def message : RequestFailure → String
  | part failure => failure.message
  | cannotRename pattern _ => "Cannot rename with pattern '" ++ pattern ++ "'"
  | cannotNumber pattern _ => "Cannot number files with pattern '" ++ pattern ++ "'"
  | operationLog path _ => "Failed to open operation log: " ++ path.display
  | undoLog path _ => "Failed to write undo log: " ++ path.display
  | unreadableFolder path _ => "Failed to read directory " ++ path.display
  | nothingToUndo => "Nothing to undo"
  | nothingToRedo => "Nothing to redo"
  | noFiles => "No files given"
  | notText path => "Invalid path (not UTF-8): " ++ path.display
  | notFound path => "File not found: " ++ path.display
  | badTime text =>
    "Invalid time '" ++ text ++ "': expected 'now', RFC 3339 or 'YYYY-MM-DD[ HH:MM:SS]'"
  | incomplete left total =>
    toString left ++ " of " ++ toString total ++ " operations did not complete"

/-- The words of a failure and of all that lies behind it. -/
def detailed (f : RequestFailure) : String :=
  match f with
  | part failure => failure.detailed
  | cannotRename _ failure => f.message ++ ": " ++ failure.detailed
  | cannotNumber _ failure => f.message ++ ": " ++ failure.detailed
  | operationLog _ fault => f.message ++ ": " ++ fault.message
  | undoLog _ fault => f.message ++ ": " ++ fault.message
  | unreadableFolder _ cause => f.message ++ ": " ++ cause
  | _ => f.message

/-- The failure of a part that lies behind a failed request. -/
def part? : RequestFailure → Option Failure
  | part failure => some failure
  | cannotRename _ failure => some failure
  | cannotNumber _ failure => some failure
  | _ => none

end RequestFailure

end Renumber
