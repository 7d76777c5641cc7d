import Renumber.CommandLine.Token
import Renumber.Request.Touch

/-!
# Understanding a command line

The parts of a command line become an order: a command with everything it is to know.
Where an option stands both in front of the command and behind it, the one behind
counts. Every value is checked before anything is done.
-/

namespace Renumber.CommandLine

open Renumber.Time (Instant)

/-- What to do about failed commands. -/
inductive OnError where
  | prompt
  | ignore
  | abort
  deriving DecidableEq, Repr

/-- The form of an answer. -/
structure Output where
  json : Bool := false
  quiet : Bool := false
  deriving DecidableEq, Repr

/-- What numbers files: a pattern, a start and a folder. -/
structure NumberingChoice where
  pattern : Option String
  start : Option Nat
  folder : Option Path

/-- A command with its arguments. -/
inductive Order where
  | rename (paths : List Path) (choice : NumberingChoice) (recursive unique dryRun : Bool)
  | touch (paths : List Path) (modified accessed created : Option Instant)
      (readonly : Option Bool) (dryRun : Bool)
  | undo
  | redo
  | history (limit : Option Nat)
  | nextCounter (paths : List Path) (choice : NumberingChoice)
  | counterIn (name : String) (pattern : Option String)
  | version

/-- A whole command line, understood. -/
structure Call where
  order : Order
  output : Output
  directory : Option Path
  undoLog : Option Path
  logFile : Option Path
  onError : OnError
  noColor : Bool

namespace Parts

/-- The value of an option, if it was given. -/
def value? (p : Parts) (switch : Switch) : Option String :=
  ((p.behind ++ p.before).find? (·.switch = switch)).map Given.value

/-- The option was given. -/
def has (p : Parts) (switch : Switch) : Bool :=
  (p.value? switch).isSome

/-- The value of an option as `read` understands it. -/
def read {α : Type} (p : Parts) (switch : Switch) (read : String → Option α) :
    Except UsageFault (Option α) :=
  match p.value? switch with
  | none => .ok none
  | some value =>
    match read value with
    | some a => .ok (some a)
    | none => .error (.badValue switch value)

end Parts

/-- A path must not be empty. -/
def path? (s : String) : Option Path :=
  if s.isEmpty then none else some (.ofString s)

/-- A number below a bound; a plus may stand in front. -/
def numberBelow? (bound : Nat) (s : String) : Option Nat :=
  let digits := match s.toList with
    | '+' :: rest => rest
    | cs => cs
  if digits.isEmpty || !digits.all Char.isDigit then none
  else
    let n := Text.numberIn 10 digits
    if n < bound then some n else none

/-- A counter. It may have a minus in front when it is zero. -/
def counter? (s : String) : Option Nat :=
  match s.toList with
  | '-' :: zeros => if !zeros.isEmpty && zeros.all (· == '0') then some 0 else none
  | _ => numberBelow? (Pattern.maxCounter + 1) s

/-- The word for a form of output. -/
def json? (s : String) : Option Bool :=
  if s == "json" then some true else if s == "summary" then some false else none

/-- The word for a way to handle failures. -/
def onError? (s : String) : Option OnError :=
  if s == "prompt" then some .prompt
  else if s == "ignore" then some .ignore
  else if s == "abort" then some .abort
  else none

/-- The paths that a command is about, one at least. -/
def paths (p : Parts) : Except UsageFault (List Path) :=
  if p.operands.isEmpty then .error .missingOperand
  else match p.operands.mapM path? with
    | some paths => .ok paths
    | none => .error .emptyPath

/-- The command is about nothing. -/
def noOperands (p : Parts) : Except UsageFault Unit :=
  match p.operands with
  | [] => .ok ()
  | word :: _ => .error (.unexpected word)

/-- The one word that a command is about. -/
def oneOperand (p : Parts) : Except UsageFault String :=
  match p.operands with
  | [] => .error .missingOperand
  | [word] => .ok word
  | _ :: word :: _ => .error (.unexpected word)

/-- What numbers files. -/
def numberingChoice (p : Parts) : Except UsageFault NumberingChoice := do
  return ⟨p.value? .pattern, ← p.read .start counter?, ← p.read .destination path?⟩

/-- The read-only flag that is asked for, if any. -/
def readonly (p : Parts) : Except UsageFault (Option Bool) :=
  match p.has .readonly, p.has .writable with
  | true, true => .error (.excluded .readonly .writable)
  | true, false => .ok (some true)
  | false, true => .ok (some false)
  | false, false => .ok none

/-- The order that parts amount to. -/
def order (now : Instant) (p : Parts) (verb : Verb) : Except UsageFault Order := do
  let time := fun switch => p.read switch fun s => (TouchRequest.timeOf now s).toOption
  match verb with
  | .rename =>
    return .rename (← paths p) (← numberingChoice p) (p.has .recursive) (!p.has .noUnique)
      (p.has .dryRun)
  | .touch =>
    return .touch (← paths p) (← time .modified) (← time .accessed) (← time .created)
      (← readonly p) (p.has .dryRun)
  | .undo => noOperands p; return .undo
  | .redo => noOperands p; return .redo
  | .history => noOperands p; return .history (← p.read .limit (numberBelow? (Nat.pow 2 64)))
  | .nextCounter => return .nextCounter (← paths p) (← numberingChoice p)
  | .counterIn => return .counterIn (← oneOperand p) (p.value? .pattern)
  | .version => noOperands p; return .version

/-- Understand a command line at some time. -/
def understand (now : Instant) (words : List String) : Except UsageFault Call := do
  let p ← split words
  match p.verb with
  | none => throw .missingCommand
  | some verb =>
    return {
      order := ← order now p verb
      output := ⟨(← p.read .output json?).getD false, p.has .quiet⟩
      directory := ← p.read .directory path?
      undoLog := ← p.read .undoLog path?
      logFile := ← p.read .logFile path?
      onError := (← p.read .onError onError?).getD .prompt
      noColor := p.has .noColor }

/-- An option as it is written. -/
def Switch.text (s : Switch) : String :=
  match s.long?, s.short? with
  | some name, _ => "--" ++ name
  | none, some c => "-" ++ String.singleton c
  | none, none => ""

/-- The fault in words. -/
def UsageFault.message : UsageFault → String
  | unknownOption word => "unknown option '" ++ word ++ "'"
  | unknownCommand word => "unknown command '" ++ word ++ "'"
  | unexpected word => "unexpected argument '" ++ word ++ "'"
  | missingValue switch => "a value is needed for '" ++ switch.text ++ "'"
  | unwantedValue switch => "'" ++ switch.text ++ "' takes no value"
  | repeated switch => "'" ++ switch.text ++ "' cannot be used more than once"
  | badValue switch value => "invalid value '" ++ value ++ "' for '" ++ switch.text ++ "'"
  | excluded a b => "'" ++ a.text ++ "' cannot be used with '" ++ b.text ++ "'"
  | missingOperand => "required arguments are missing"
  | emptyPath => "a path must not be empty"
  | missingCommand => "a command is needed: " ++ ", ".intercalate (Verb.all.map Verb.word)
  | versionWanted => ""

end Renumber.CommandLine
