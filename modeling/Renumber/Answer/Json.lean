import Renumber.Answer.Basic
import Renumber.Json.Basic

/-!
# Answers as JSON

The form of answers for other programs. The fields of an object are in alphabetical
order, but those of answers about counters tell the question first. An answer is a
success when no command was left out.
-/

namespace Renumber

/-- A report as JSON. -/
def Report.toJson (r : Report) : Json :=
  .object [
    ("aborted", .bool r.aborted),
    ("cancelled", .bool r.cancelled),
    ("executed", .ofNat r.executed),
    ("failed", .list (r.failed.map fun item =>
      .object [("description", .text item.description), ("error", .text item.error)])),
    ("skipped", .ofNat r.skipped),
    ("total", .ofNat r.total)]

namespace Answer

/-- No command of a run was left out. -/
def isSuccess (report : Option Report) : Bool :=
  report.all Report.isComplete

/-- A step back or forth as JSON. -/
def stepJson (operation : String) (a : StepAnswer) : Json :=
  .object [
    ("commands", .ofNat a.commands),
    ("description", .text a.description),
    ("kind", .text a.kind),
    ("operation", .text operation),
    ("partial", .bool a.isPartial),
    ("report", a.report.toJson),
    ("success", .bool !a.isPartial)]

/-- A batch of the history as JSON. -/
def historyJson (e : HistoryEntry) : Json :=
  .object [
    ("commands", .ofNat e.commands),
    ("description", .text e.description),
    ("kind", .text e.kind),
    ("stack", .text e.stack),
    ("timestamp", .ofOption .text e.time)]

/-- An answer as JSON. -/
def toJson : Answer → Json
  | rename a =>
    .object [
      ("dry_run", .bool a.dryRun),
      ("next_counter", .ofNat a.nextCounter),
      ("operation", .text "rename"),
      ("pattern", .text a.pattern),
      ("renames", .list (a.renames.map fun e =>
        .object [("from", .text e.source), ("to", .text e.target)])),
      ("report", .ofOption Report.toJson a.report),
      ("staged", .ofNat a.staged),
      ("success", .bool (isSuccess a.report)),
      ("warnings", .list (a.warnings.map .text))]
  | touch a =>
    .object [
      ("dry_run", .bool a.dryRun),
      ("files", .list (a.files.map fun e =>
        .object [("changes", .list (e.changes.map .text)), ("path", .text e.path)])),
      ("operation", .text "touch"),
      ("report", .ofOption Report.toJson a.report),
      ("success", .bool (isSuccess a.report))]
  | undo a => stepJson "undo" a
  | redo a => stepJson "redo" a
  | history entries => .object [("entries", .list (entries.map historyJson))]
  | nextCounter pattern start next =>
    .object [("pattern", .text pattern), ("start", .ofNat start), ("next", .ofNat next)]
  | counterIn name pattern counter =>
    .object [
      ("name", .text name),
      ("pattern", .text pattern),
      ("counter", .ofOption .ofNat counter)]
  | version name number => .object [("name", .text name), ("version", .text number)]

end Answer

end Renumber
