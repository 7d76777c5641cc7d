import Renumber.Path.Basic

/-!
# Why a file could not be used

The causes for which an action on files fails. Most are the file system's own and
carry its number; a few are refusals of this library.
-/

namespace Renumber

/-- The cause of a failed action on files. -/
inductive DiskFault where
  /-- A component of the path does not exist. -/
  | missing
  /-- The place is taken. -/
  | exists
  /-- A component that should be a folder is something else. -/
  | notFolder
  /-- A folder stands where a file is needed. -/
  | isFolder
  /-- A folder would be moved below itself. -/
  | invalid
  /-- The permission bits of the file forbid it. -/
  | denied
  /-- The path ends in no name. -/
  | busy
  /-- A component or the whole path is too long. -/
  | tooLong
  /-- A folder that should be replaced holds entries. -/
  | notEmpty
  /-- Too many links on the way. -/
  | tooManyLinks
  /-- The path holds a zero byte. -/
  | zeroByte
  /-- A rename would replace what is at the path. -/
  | occupied (path : Path)
  /-- A file that should hold text holds something else. -/
  | garbled
  /-- A path that cannot be written as text. -/
  | notText (path : Path)
  /-- A file state whose path cannot be written as text. -/
  | stateNotText
  /-- A kind of command that is never written to a log. -/
  | notRecorded (kind : String)
  deriving DecidableEq, Repr

namespace DiskFault

/-- The file system's number of a cause, and its words. -/
def systemText : DiskFault → Option (Nat × String)
  | missing => some (2, "No such file or directory")
  | denied => some (13, "Permission denied")
  | busy => some (16, "Device or resource busy")
  | .exists => some (17, "File exists")
  | notFolder => some (20, "Not a directory")
  | isFolder => some (21, "Is a directory")
  | invalid => some (22, "Invalid argument")
  | tooLong => some (36, "File name too long")
  | notEmpty => some (39, "Directory not empty")
  | tooManyLinks => some (40, "Too many levels of symbolic links")
  | _ => none

/-- The cause in words. -/
def message (fault : DiskFault) : String :=
  match fault.systemText with
  | some (number, words) => words ++ " (os error " ++ toString number ++ ")"
  | none => match fault with
    | zeroByte => "file name contained an unexpected NUL byte"
    | occupied path => path.display ++ " already exists"
    | garbled => "stream did not contain valid UTF-8"
    | notText path => "path is not valid UTF-8: " ++ path.display
    | stateNotText => "path contains invalid UTF-8 characters"
    | notRecorded kind => kind ++ " commands are not persisted"
    | _ => ""

end DiskFault

end Renumber
