import Renumber.Answer.Basic
import Renumber.Answer.Json
import Renumber.Answer.Summary
import Renumber.Batch
import Renumber.Command
import Renumber.CommandLine.Option
import Renumber.CommandLine.Order
import Renumber.CommandLine.Reach
import Renumber.CommandLine.Run
import Renumber.CommandLine.Token
import Renumber.Disk.Actions
import Renumber.Disk.Basic
import Renumber.Disk.Deed
import Renumber.Disk.Fault
import Renumber.Disk.Walk
import Renumber.Failure
import Renumber.FileState
import Renumber.History.Basic
import Renumber.History.Store
import Renumber.Json.Basic
import Renumber.Json.Printer
import Renumber.Json.Reader
import Renumber.Main
import Renumber.Numbering.Basic
import Renumber.Numbering.Fill
import Renumber.OperationLog
import Renumber.Path.Basic
import Renumber.Path.Component
import Renumber.Path.Key
import Renumber.Path.Map
import Renumber.Pattern.Counter
import Renumber.Pattern.Part
import Renumber.Pattern.Search
import Renumber.Pattern.Spec
import Renumber.Pattern.Token
import Renumber.Plan.Basic
import Renumber.Plan.Conflict
import Renumber.Prompt
import Renumber.Proofs.Disk.Kept
import Renumber.Proofs.Disk.Move
import Renumber.Proofs.Disk.Place
import Renumber.Proofs.Disk.Shape
import Renumber.Proofs.Disk.Tend
import Renumber.Proofs.Disk.Tree
import Renumber.Proofs.Disk.Walk
import Renumber.Proofs.History.Conservation
import Renumber.Proofs.History.Linear
import Renumber.Proofs.History.Moves
import Renumber.Proofs.History.Reload
import Renumber.Proofs.History.Stored
import Renumber.Proofs.Moves
import Renumber.Proofs.Path.Map
import Renumber.Proofs.Path.Segments
import Renumber.Proofs.Pattern.Counter
import Renumber.Proofs.Pattern.Format
import Renumber.Proofs.Pattern.Found
import Renumber.Proofs.Pattern.Once
import Renumber.Proofs.Pattern.RoundTrip
import Renumber.Proofs.Plan.Again
import Renumber.Proofs.Plan.Conflict
import Renumber.Proofs.Plan.Correct
import Renumber.Proofs.Plan.Numbered
import Renumber.Proofs.Plan.Steps
import Renumber.Proofs.Request.Begin
import Renumber.Proofs.Request.Listed
import Renumber.Proofs.Request.Ready
import Renumber.Proofs.Request.Rename
import Renumber.Proofs.Request.RoundTrip
import Renumber.Proofs.Run.Conduct
import Renumber.Proofs.Run.Refine
import Renumber.Proofs.Run.Tally
import Renumber.Proofs.UndoLog.RoundTrip
import Renumber.Proofs.World.Act
import Renumber.Proofs.World.Flat
import Renumber.Proofs.World.Rename
import Renumber.Proofs.World.Renamed
import Renumber.Proofs.World.Sample
import Renumber.Request.Basic
import Renumber.Request.Counter
import Renumber.Request.Failure
import Renumber.Request.Rename
import Renumber.Request.Sources
import Renumber.Request.Step
import Renumber.Request.Touch
import Renumber.Run.Basic
import Renumber.Run.Batch
import Renumber.Run.Conduct
import Renumber.Run.Policy
import Renumber.Run.Report
import Renumber.Session
import Renumber.Settings.Basic
import Renumber.Settings.Load
import Renumber.Text.Blank
import Renumber.Text.Case
import Renumber.Text.Case.Table
import Renumber.Text.Digit
import Renumber.Text.Grid
import Renumber.Text.Split
import Renumber.Text.Utf8
import Renumber.Text.Width
import Renumber.Text.Width.Table
import Renumber.Time.Calendar
import Renumber.Time.Instant
import Renumber.Time.Reader
import Renumber.Toml.Basic
import Renumber.Toml.Draft
import Renumber.Toml.Quoted
import Renumber.Toml.Reader
import Renumber.Toml.Scalar
import Renumber.UndoLog.Reader
import Renumber.UndoLog.StateText
import Renumber.UndoLog.Store
import Renumber.UndoLog.Writer
import Renumber.WorkingSet
import Renumber.World.Basic
import Renumber.World.Files
import Renumber.Proofs.UndoLog.Cut
import Renumber.Proofs.History.Steps
import Renumber.Proofs.History.Layers
import Renumber.Proofs.Session.Amend
import Renumber.Proofs.Session.Kept
import Renumber.Proofs.Session.Operations
import Renumber.Proofs.Session.Wishes
import Renumber.Proofs.Session.Edits
import Renumber.Proofs.Session.Undoable
import Renumber.Proofs.World.Level
import Renumber.Proofs.Run.Carried
import Renumber.Proofs.Session.Follows
import Renumber.Proofs.Session.Idle
import Renumber.Proofs.Session.Restored
import Renumber.Proofs.Plan.Renumbered
import Renumber.Proofs.Numbering.NextFree
import Renumber.Proofs.History.Unsaved
import Renumber.Proofs.Session.Drafts
import Renumber.Proofs.Plan.Phases
import Renumber.Proofs.Request.Parted
import Renumber.Proofs.Disk.Descent
import Renumber.Proofs.Request.Sources
import Renumber.Proofs.Numbering.Counters
import Renumber.Proofs.Numbering.Decorated
import Renumber.Proofs.Pattern.Readable
import Renumber.Proofs.Session.Whole
import Renumber.Proofs.World.Whole
import Renumber.Proofs.Pattern.First
import Renumber.Proofs.Pattern.Grammar
import Renumber.Proofs.Pattern.Tokenized
import Renumber.Proofs.Run.Prompted
import Renumber.Proofs.History.Applied
import Renumber.Proofs.Session.Items
