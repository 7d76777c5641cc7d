import Renumber.Batch
import Renumber.Json.Reader
import Renumber.Text.Blank
import Renumber.UndoLog.StateText
import Renumber.UndoLog.Writer

/-!
# Reading the undo log

Reading never fails. Lines that make no sense are passed over, a batch of an unknown
kind is passed over as a whole, and a batch without its end tag is dropped, also when
the next header comes first. A line that is not text ends the log.
-/

namespace Renumber.UndoLog

open Renumber.Text (trim trimStart words)
open Renumber.Time (Stamp readStamp?)

/-- A header line: of a kind that is recorded, or of any other kind. -/
inductive Header where
  | known (kind : CommandKind) (stamp : Option Stamp)
  | unknown
  deriving DecidableEq, Repr

/-- A text without its first and last character, if they are these. -/
def unwrap? (first last : Char) (s : List Char) : Option (List Char) :=
  match s with
  | [] => none
  | c :: rest =>
    if c = first ∧ rest.getLast? = some last then some rest.dropLast else none

/-- The header that a line is: a key, a count in brackets and possibly a stamp. The
count does not matter, and neither does a stamp that makes no sense. -/
def header? (s : List Char) : Option Header := do
  let inner ← unwrap? '<' '>' s
  match words inner with
  | key :: count :: rest =>
    discard <| unwrap? '[' ']' count
    match (CommandKind.ofKey? (String.ofList key)).filter CommandKind.isRecorded with
    | some kind => return .known kind (rest.head?.bind readStamp?)
    | none => return .unknown
  | _ => none

/-- The two JSON values around an arrow. -/
def sides? (s : List Char) : Option (Json × Json) := do
  let (before, rest) ← Json.readFront? s
  match trimStart rest with
  | '-' :: '>' :: rest => return (before, ← Json.parse? rest)
  | _ => none

/-- The command of a kind that a line is. -/
def command? (kind : CommandKind) (s : List Char) : Option Command := do
  let (before, after) ← sides? s
  match kind with
  | .rename => return .rename (← FileState.path? before) (← FileState.path? after)
  | .touch => return .touch (← FileState.ofJson? before) (← FileState.ofJson? after)
  | _ => none

/-- Where the reader is: outside of batches, in a batch, or in one that is passed
over. -/
inductive Reading where
  | outside
  | inside (kind : CommandKind) (stamp : Option Stamp) (commands : List Command)
  | skipping

/-- The batches read so far, and where the reader is. -/
structure ReadState where
  stack : List Batch
  reading : Reading

/-- A batch ends. It counts if it has commands. -/
def closeBatch (r : ReadState) : ReadState :=
  match r.reading with
  | .inside kind stamp commands =>
    if commands.isEmpty then ⟨r.stack, .outside⟩
    else ⟨r.stack ++ [{ kind, stamp, commands }], .outside⟩
  | _ => ⟨r.stack, .outside⟩

/-- Read a line. -/
def readLine (r : ReadState) (s : List Char) : ReadState :=
  let s := trim s
  if s.isEmpty then r
  else if s = endTag then closeBatch r
  else match header? s with
    | some (.known kind stamp) => ⟨r.stack, .inside kind stamp []⟩
    | some .unknown => ⟨r.stack, .skipping⟩
    | none =>
      match r.reading with
      | .inside kind stamp commands =>
        match command? kind s with
        | some c => ⟨r.stack, .inside kind stamp (commands ++ [c])⟩
        | none => r
      | _ => r

/-- Read lines up to one that is not text; tell whether there was one. -/
def readLines : ReadState → List (List UInt8) → ReadState × Bool
  | r, [] => (r, false)
  | r, s :: rest =>
    match Text.decode? s with
    | some s => readLines (readLine r s) rest
    | none => (r, true)

/-- The byte that ends a line. -/
def newline : UInt8 := 10

/-- Read a log; tell whether a part of it is not text. -/
def readAll (bytes : List UInt8) : List Batch × Bool :=
  let (r, broken) := readLines ⟨[], .outside⟩ (Text.linesOf newline bytes)
  (r.stack, broken)

/-- The stack that a log holds, oldest batch first. -/
def read (bytes : List UInt8) : List Batch :=
  (readAll bytes).1

end Renumber.UndoLog
