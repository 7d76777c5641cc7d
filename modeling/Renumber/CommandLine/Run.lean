import Renumber.Answer.Json
import Renumber.Answer.Summary
import Renumber.CommandLine.Order
import Renumber.Json.Printer
import Renumber.Prompt
import Renumber.Request.Counter
import Renumber.Request.Rename
import Renumber.Request.Sources
import Renumber.Request.Step
import Renumber.Settings.Load

/-!
# Running a command line

A command line is understood, the settings are loaded, the order is carried out, and
the answer is printed. A run that left commands out fails after its answer was printed.
The exit code tells conflicts, invalid input and everything else apart.
-/

namespace Renumber.CommandLine

/-- A command line and what surrounds it. -/
structure Invocation where
  words : List String
  /-- The undo log that the environment names. -/
  undoLog : Option Path := none
  /-- The undo log that is used when none is named. -/
  usualLog : Path
  /-- Colour is seen where the output goes. -/
  terminal : Bool := false
  /-- The lines that a user at the keyboard types, if there is one. -/
  keyboard : Option Prompt.Lines := none

/-- The result of a run. -/
structure Outcome where
  code : Nat
  out : String := ""
  errors : String := ""
  deriving DecidableEq, Repr

/-- The name of the program. -/
def programName : String := "seqren"

/-- The version of the program. -/
def programVersion : String := "0.1.0"

/-- A text occurs in another one. -/
def occursIn (part s : String) : Bool :=
  (Pattern.suffixes s.toList).any fun rest => part.toList.isPrefixOf rest

/-- The exit code of a failed part. -/
def partCode : Failure → Nat
  | .conflicts _ => 1
  | .notDistinct _ => 1
  | .unusablePattern _ => 2
  | .noUniqueName .. => 2
  | .noFreeCounter .. => 2
  | .unknownItem _ => 2
  | _ => 3

/-- The exit code of a failed request: that of the part that failed, or else what its
words amount to. -/
def exitCode (f : RequestFailure) : Nat :=
  match f.part? with
  | some failure => partCode failure
  | none =>
    if occursIn "conflict" f.message then 1
    else if ["Invalid", "not found", "No files"].any (occursIn · f.message) then 2
    else 3

/-- An answer as it is printed. -/
def printed (call : Call) (colored : Bool) (a : Answer) : String :=
  if call.output.json then a.toJson.render ++ "\n"
  else
    match a with
    | .rename _ | .touch _ | .undo _ | .redo _ =>
      if call.output.quiet then "" else a.summary colored
    | _ => a.summary colored ++ "\n"

/-- The files below a folder, folder by folder in the order of names. -/
def filesBelow (w : World) (folder : Path) (loc : Location) : List Path :=
  w.disk.entries.toList.filterMap fun (at', e) =>
    match e with
    | .file _ =>
      if loc.isPrefixOf at' then
        some (folder.join ⟨Path.joinSegments (at'.drop loc.length)⟩)
      else none
    | _ => none

/-- A path with the files below it in place of a folder. -/
def expandFolder (w : World) (p : Path) : List Path :=
  match w.disk.findEntry w.cwd true p with
  | .ok (loc, .folder _) => filesBelow w p loc
  | _ => [p]

/-- The sources of an order. -/
def sources (w : World) (recursive : Bool) (paths : List Path) :
    Except RequestFailure (List Path) :=
  resolveSources w w.folder (if recursive then paths.flatMap (expandFolder w) else paths)

/-- Carry out an order. -/
def perform {σ : Type} (env : Surroundings σ) (order : Order) : Request σ Answer := do
  let w := (← get).world
  match order with
  | .rename paths choice recursive unique dryRun =>
    let req : RenameRequest :=
      { sources := ← sources w recursive paths
        pattern := choice.pattern
        start := choice.start
        folder := choice.folder.map w.folder.join
        unique := if unique then none else some false
        dryRun }
    return .rename (← req.run env)
  | .touch paths modified accessed created readonly dryRun =>
    let req : TouchRequest :=
      { sources := ← sources w false paths, modified, accessed, created, readonly, dryRun }
    return .touch (← req.run env)
  | .undo => return .undo (← Request.undo env)
  | .redo => return .redo (← Request.redo env)
  | .history limit => return .history (← Request.history env limit)
  | .nextCounter paths choice =>
    Request.nextCounter env.settings w (← sources w false paths) choice.pattern choice.start
      (choice.folder.map w.folder.join)
  | .counterIn name pattern => return Request.counterIn env.settings name pattern
  | .version => return .version programName programVersion

/-- The failure of a run that left commands out. -/
def incomplete? (a : Answer) : Option RequestFailure :=
  match a.report? with
  | some r => if r.isComplete then none else some (.incomplete r.incomplete r.total)
  | none => none

/-- The policy that is asked for. Without a user to ask, asking means to abort. -/
def policyOf (call : Call) (keyboard : Option Prompt.Lines) : Policy Prompt.Lines World :=
  match call.onError with
  | .prompt => if keyboard.isSome then Prompt.policy else .fixed false
  | .abort => .fixed false
  | .ignore => .fixed true

/-- Go to the folder that is asked for. -/
def enter (call : Call) : Act DiskFault Unit := do
  match call.directory with
  | none => return ()
  | some p =>
    let w ← get
    match w.disk.findEntry w.cwd true p with
    | .ok (cwd, .folder _) => set { w with cwd }
    | .ok _ => throw .notFolder
    | .error fault => throw fault

/-- Load the settings; without usable ones the usual ones hold. -/
def loadSettings : StateM World Settings := do
  match Settings.load (← get) with
  | .ok settings => return settings
  | .error fault =>
    World.notify ("Warning: " ++ fault.detailed ++ "; using defaults")
    return {}

/-- The line about an error. -/
def errorLine (words : String) : String :=
  "Error: " ++ words ++ "\n"

/-- The surroundings of a call: what it asks for itself goes before the environment, and
that before the settings. -/
def surroundings (inv : Invocation) (call : Call) (settings : Settings) :
    Surroundings Prompt.Lines :=
  { settings
    undoLog := (call.undoLog <|> inv.undoLog <|> settings.undo.log).getD inv.usualLog
    operationLog := call.logFile <|> settings.operationLog
    policy := policyOf call inv.keyboard
    heedsStop := true }

/-- Carry out a command line that was understood. -/
def runCall (inv : Invocation) (call : Call) : StateM World Outcome := do
  let settings ← loadSettings
  let env := surroundings inv call settings
  let colored := !call.noColor && settings.defaults.useColor.getD true && inv.terminal
  let (result, scene) := (perform env call.order).run ⟨← get, inv.keyboard.getD []⟩
  set scene.world
  match result with
  | .error f => return ⟨exitCode f, "", errorLine f.detailed⟩
  | .ok answer =>
    let out := printed call colored answer
    match incomplete? answer with
    | some f => return ⟨exitCode f, out, errorLine f.detailed⟩
    | none => return ⟨0, out, ""⟩

/-- The lines of the notices since the run began. -/
def noticeLines (w : World) : String :=
  String.join (w.notices.map (· ++ "\n"))

/-- Run a command line. Notices come before the error, if there is one. -/
def run (inv : Invocation) : StateM World Outcome := do
  let now ← World.readClock
  modify fun w => { w with notices := [] }
  match understand now inv.words with
  | .error .versionWanted => return ⟨0, programName ++ " " ++ programVersion ++ "\n", ""⟩
  | .error fault => return ⟨2, "", "error: " ++ fault.message ++ "\n"⟩
  | .ok call =>
    match ← (enter call).run with
    | .error fault =>
      let folder := (call.directory.map Path.display).getD ""
      let words := "Failed to change to directory: " ++ folder ++ ": " ++ fault.message
      return ⟨2, "", errorLine words⟩
    | .ok () =>
      let outcome ← runCall inv call
      return { outcome with errors := noticeLines (← get) ++ outcome.errors }

end Renumber.CommandLine
