import Renumber.Path.Key

/-!
# Conflicts of renames

The reasons why a set of renames is refused as a whole. Names that some systems
reserve for devices are refused everywhere, so that files can be moved between
systems.
-/

namespace Renumber

/-- Why a destination cannot be used. -/
inductive ConflictKind where
  /-- Several sources have this destination. -/
  | shared
  /-- A file outside the batch stands there. -/
  | taken
  /-- The name is reserved for a device. -/
  | reserved
  deriving DecidableEq, Repr

/-- The kind in words. -/
def ConflictKind.message : ConflictKind → String
  | shared => "multiple sources map to the same destination"
  | taken => "destination already exists"
  | reserved => "destination is a reserved name"

/-- A destination that cannot be used, and the sources that would go there. -/
structure Conflict where
  sources : List Path
  target : Path
  kind : ConflictKind
  deriving DecidableEq, Repr

/-- One line about a conflict. -/
def Conflict.message (c : Conflict) : String :=
  "  " ++ c.kind.message ++ ": " ++ ", ".intercalate (c.sources.map Path.display) ++ " -> " ++
    c.target.display

/-- The device names. -/
def reservedNames : List String :=
  ["CON", "PRN", "AUX", "NUL",
   "COM1", "COM2", "COM3", "COM4", "COM5", "COM6", "COM7", "COM8", "COM9",
   "LPT1", "LPT2", "LPT3", "LPT4", "LPT5", "LPT6", "LPT7", "LPT8", "LPT9"]

/-- The name up to its first dot is a device name, in whatever case. No letter outside
ASCII has a capital that occurs in a device name. -/
def isReserved (name : List Char) : Bool :=
  let base := (name.takeWhile (· != '.')).map Char.toUpper
  reservedNames.any fun r => r.toList == base

end Renumber
