import Renumber.Answer.Basic
import Renumber.Text.Grid

/-!
# Answers in words

The form of answers for people. What would be done is shown as a table, what was done
as a count; commands that did not run are listed with their errors, in red if colour is
asked for. Answers of several lines end their last line, short ones do not.
-/

namespace Renumber.Answer

/-- A text in red. -/
def inRed (s : String) : String :=
  "\x1b[31m" ++ s ++ "\x1b[0m"

/-- A text and the end of its line. -/
def line (s : String) : String :=
  s ++ "\n"

/-- The lines about commands that did not run. -/
def reportLines (colored : Bool) (r : Report) : String :=
  if r.isComplete then ""
  else line (if colored then inRed r.summary else r.summary)

/-- The lines about an optional report. -/
def optionalLines (colored : Bool) (r : Option Report) : String :=
  (r.map (reportLines colored)).getD ""

/-- How many commands ran. -/
def executed (r : Option Report) : Nat :=
  (r.map Report.executed).getD 0

/-- How a done batch is taken back. -/
def undoHint : String :=
  line "Undo with: seqren undo"

/-- A rename in words. -/
def renameSummary (colored : Bool) (a : RenameAnswer) : String :=
  let warnings := String.join (a.warnings.map fun w => line ("Warning: " ++ w))
  let count := toString a.renames.length
  warnings ++
    if a.renames.isEmpty then line "Nothing to rename"
    else if a.dryRun then
      let grid : Text.Grid :=
        ⟨["From", "To"], a.renames.map fun e => [e.source, e.target]⟩
      line (grid.render colored) ++
        line ("Dry run: " ++ count ++ " files would be renamed") ++
        if a.staged > 0 then line (toString a.staged ++ " renames need an intermediate name")
        else ""
    else
      line ("✓ Renamed " ++ count ++ " files (" ++ toString (executed a.report) ++
        " operations)") ++
        optionalLines colored a.report ++ undoHint

/-- A touch in words. -/
def touchSummary (colored : Bool) (a : TouchAnswer) : String :=
  if a.files.isEmpty then line "Nothing to touch"
  else if a.dryRun then
    let grid : Text.Grid :=
      ⟨["File", "Changes"], a.files.map fun e => [e.path, ", ".intercalate e.changes]⟩
    line (grid.render colored) ++
      line ("Dry run: " ++ toString a.files.length ++ " files would be touched")
  else
    line ("✓ Touched " ++ toString (executed a.report) ++ " files") ++
      optionalLines colored a.report ++ undoHint

/-- A step back or forth in words. -/
def stepSummary (colored : Bool) (verb stack : String) (a : StepAnswer) : String :=
  line ("✓ " ++ verb ++ " " ++ String.ofList (Text.lower a.kind.toList) ++ ": " ++
    a.description) ++
    reportLines colored a.report ++
    if a.isPartial then line ("The rest of this batch stays on the " ++ stack ++ " stack") else ""

/-- A batch of the history as a row. -/
def historyRow (e : HistoryEntry) : List String :=
  [e.stack, e.kind, e.time.getD "-", toString e.commands, e.description]

/-- The history in words. -/
def historySummary (colored : Bool) (entries : List HistoryEntry) : String :=
  if entries.isEmpty then "No history entries found"
  else
    let grid : Text.Grid :=
      ⟨["Stack", "Type", "Date", "Files", "Description"], entries.map historyRow⟩
    grid.render colored

/-- An answer in words. -/
def summary (colored : Bool) : Answer → String
  | rename a => renameSummary colored a
  | touch a => touchSummary colored a
  | undo a => stepSummary colored "Undid" "undo" a ++ line "Redo with: seqren redo"
  | redo a => stepSummary colored "Redid" "redo" a
  | history entries => historySummary colored entries
  | nextCounter _ _ next => toString next
  | counterIn name pattern counter =>
    match counter with
    | some n => toString n
    | none => "'" ++ name ++ "' does not match '" ++ pattern ++ "'"
  | version name number => name ++ " " ++ number

end Renumber.Answer
