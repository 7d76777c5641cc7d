import Renumber.History.Basic
import Renumber.Numbering.Basic
import Renumber.Toml.Basic

/-!
# Settings

What holds when a request does not say otherwise. A settings file has three sections;
what it leaves out keeps its usual value, and names that mean nothing here are passed
over, but a value of the wrong sort makes the whole file useless. A section may also be
written as a list of its values in order.
-/

namespace Renumber

/-- The folder of the settings, within the working folder. -/
def settingsFolder : Path :=
  .ofString ".seqren"

/-- The usual choices for numbering, and for colour; without a choice of colour it is
used where it can be seen. -/
structure Settings.Defaults where
  pattern : String := "*_###"
  start : Nat := 1
  unique : Bool := true
  checkExisting : Bool := true
  maxDuplicates : Nat := 200
  useColor : Option Bool := none
  deriving DecidableEq, Repr

/-- Where the history is kept, and how much of it. -/
structure Settings.Undo where
  log : Option Path := none
  limit : Nat := History.defaultLimit
  deriving DecidableEq, Repr

/-- Whether operations are logged, and where. -/
structure Settings.Log where
  enabled : Bool := false
  file : Option Path := none
  deriving DecidableEq, Repr

/-- All settings. -/
structure Settings where
  defaults : Settings.Defaults := {}
  undo : Settings.Undo := {}
  log : Settings.Log := {}
  deriving DecidableEq, Repr

namespace Settings

/-- Where operations are logged, if anywhere: a file that is named is used even when
the log is not asked for. -/
def operationLog (s : Settings) : Option Path :=
  s.log.file <|>
    if s.log.enabled then some (settingsFolder.join (.ofString "operations.log")) else none

/-- The options of a numbering that follow from the settings. -/
def numberingOptions (s : Settings) : NumberingOptions :=
  { start := s.defaults.start
    unique := s.defaults.unique
    checkExisting := s.defaults.checkExisting
    maxDuplicates := s.defaults.maxDuplicates }

/-- The value of a name in a section, or of its place when the section is a list. A
time has no values at all. Nothing comes back for what is no section. -/
def member? (place : Nat) (name : String) : Toml → Option (Option Toml)
  | .table fields => some (fields.lookup name)
  | .list items => some items[place]?
  | .time _ => some none
  | _ => none

/-- Read the value of a name in a section, or take the usual one. -/
def setting {α : Type} (read : Toml → Option α) (usual : α) (place : Nat) (name : String)
    (part : Toml) : Option α := do
  match ← member? place name part with
  | some v => read v
  | none => return usual

/-- A text. -/
def text? : Toml → Option String
  | .text s => some s
  | _ => none

/-- A path. -/
def path? (v : Toml) : Option Path :=
  (text? v).map Path.ofString

/-- A truth value. -/
def bool? : Toml → Option Bool
  | .bool b => some b
  | _ => none

/-- A number below a bound. -/
def below? (bound : Nat) : Toml → Option Nat
  | .integer n => if 0 ≤ n ∧ n < bound then some n.toNat else none
  | _ => none

/-- A counter. -/
def counter? : Toml → Option Nat :=
  below? (Pattern.maxCounter + 1)

/-- The section of defaults. -/
def defaults? (part : Toml) : Option Defaults := do
  let usual : Defaults := {}
  return {
    pattern := ← setting text? usual.pattern 0 "pattern" part
    start := ← setting counter? usual.start 1 "start" part
    unique := ← setting bool? usual.unique 2 "unique" part
    checkExisting := ← setting bool? usual.checkExisting 3 "check_existing" part
    maxDuplicates := ← setting counter? usual.maxDuplicates 4 "max_dup_count" part
    useColor := ← setting (fun v => (bool? v).map some) none 5 "use_color" part }

/-- The section on undoing. -/
def undo? (part : Toml) : Option Undo := do
  let usual : Undo := {}
  return {
    log := ← setting (fun v => (path? v).map some) none 0 "log_path" part
    limit := ← setting (below? (Nat.pow 2 64)) usual.limit 1 "max_depth" part }

/-- The section on logging. -/
def log? (part : Toml) : Option Log := do
  let usual : Log := {}
  return {
    enabled := ← setting bool? usual.enabled 0 "enabled" part
    file := ← setting (fun v => (path? v).map some) none 1 "operation_log" part }

/-- The settings that a document holds. -/
def ofToml? (fields : List (String × Toml)) : Option Settings := do
  let document := Toml.table fields
  return {
    defaults := ← setting defaults? {} 0 "defaults" document
    undo := ← setting undo? {} 1 "undo" document
    log := ← setting log? {} 2 "log" document }

end Settings

end Renumber
