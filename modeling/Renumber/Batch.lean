import Renumber.Command

/-!
# Batches

A batch is a list of commands that is undone and redone as one. It has a kind, which
decides whether it is recorded, a tag for its description, and possibly a stamp that
tells when it was made.
-/

namespace Renumber

open Renumber.Time (Stamp)

/-- Commands that are handled as one step. -/
structure Batch where
  kind : CommandKind
  tag : String := ""
  stamp : Option Stamp := none
  commands : List Command
  deriving DecidableEq, Repr

namespace Batch

/-- The batch is written to logs. -/
def isRecorded (b : Batch) : Bool :=
  b.kind.isRecorded

/-- There is nothing in the batch. -/
def isEmpty (b : Batch) : Bool :=
  b.commands.isEmpty

/-- How many commands there are. -/
def size (b : Batch) : Nat :=
  b.commands.length

/-- The word for one command of a kind. -/
def noun : CommandKind → String
  | .rename => "rename"
  | .touch => "touch"
  | _ => "edit"

/-- The tag, or else the number of commands. -/
def description (b : Batch) : String :=
  if b.tag != "" then b.tag
  else toString b.size ++ " " ++ noun b.kind ++ (if b.size = 1 then "" else "s")

/-- The move that a command makes. -/
def moveOf? : Command → Option (Path × Path)
  | .rename source target => some (source, target)
  | _ => none

/-- The moves that running the batch makes, in order. -/
def moves (b : Batch) : List (Path × Path) :=
  b.commands.filterMap moveOf?

/-- The moves that undoing the batch makes, in order. -/
def movesUndone (b : Batch) : List (Path × Path) :=
  (b.moves.reverse).map Prod.swap

/-- The path at which a command leaves a file. -/
def pathOf? : Command → Option Path
  | .rename _ target => some target
  | .touch _ target => some target.path
  | _ => none

/-- The paths at which the batch leaves files. -/
def paths (b : Batch) : List Path :=
  b.commands.filterMap pathOf?

/-- The batch with other commands; nothing when there are none. -/
def part? (b : Batch) (commands : List Command) : Option Batch :=
  if commands.isEmpty then none else some { b with commands }

end Batch

end Renumber
