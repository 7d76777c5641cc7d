import Renumber.Batch
import Renumber.Json.Printer
import Renumber.UndoLog.StateText

/-!
# Writing the undo log

Recorded batches are written oldest first, with an empty line between them. A batch is
a header with its kind, the number of commands and the stamp, one line per command, and
an end tag. A command that cannot be written ends the log where it is; what was written
before stays.
-/

namespace Renumber.UndoLog

/-- The line that ends a batch. -/
def endTag : List Char :=
  "<END OF BATCH>".toList

/-- What stands between the two sides of a command. -/
def arrow : List Char :=
  " -> ".toList

/-- A text as far as it could be written, and why it ends there. -/
structure Written where
  text : List Char
  fault : Option DiskFault := none
  deriving DecidableEq, Repr

namespace Written

/-- Text in front. -/
def after (chars : List Char) (w : Written) : Written :=
  ⟨chars ++ w.text, w.fault⟩

/-- More text behind, unless writing has ended. -/
def andThen (a : Written) (b : Written) : Written :=
  match a.fault with
  | none => b.after a.text
  | some _ => a

end Written

/-- A path as a JSON string. -/
def pathText (p : Path) : Except DiskFault (List Char) :=
  match p.toString? with
  | some text => .ok (Json.quoted text.toList)
  | none => .error (.notText p)

/-- The line of a command. -/
def commandText : Command → Except DiskFault (List Char)
  | .rename source target => do
    return (← pathText source) ++ arrow ++ (← pathText target)
  | .touch former target => do
    return (← former.toJson).chars ++ arrow ++ (← target.toJson).chars
  | c => .error (.notRecorded c.kind.key)

/-- The first line of a batch. -/
def header (b : Batch) : List Char :=
  let stamp := match b.stamp with
    | some stamp => ' ' :: stamp.text.toList
    | none => []
  '<' :: (b.kind.key.toList ++ [' ', '['] ++ Nat.toDigits 10 b.size ++ [']'] ++ stamp ++ ['>'])

/-- A line with its end. -/
def line (s : List Char) : List Char :=
  s ++ ['\n']

/-- The lines of commands. -/
def writeCommands : List Command → Written
  | [] => ⟨[], none⟩
  | c :: rest =>
    match commandText c with
    | .ok text => (writeCommands rest).after (line text)
    | .error fault => ⟨[], some fault⟩

/-- The lines of a batch. -/
def writeBatch (b : Batch) : Written :=
  ((writeCommands b.commands).andThen ⟨line endTag, none⟩).after (line (header b))

/-- The batches that are written: recorded and not empty. -/
def isWritten (b : Batch) : Bool :=
  b.isRecorded && !b.isEmpty

/-- The lines of batches that are written. -/
def writeBatches : List Batch → Written
  | [] => ⟨[], none⟩
  | [b] => writeBatch b
  | b :: rest => (writeBatch b).andThen ((writeBatches rest).after ['\n'])

/-- The log of a stack, oldest batch first. -/
def write (stack : List Batch) : Written :=
  writeBatches (stack.filter isWritten)

end Renumber.UndoLog
