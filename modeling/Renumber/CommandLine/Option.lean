/-!
# Options of the command line

The names of the options, which of them take a value, and where they may stand. Some
options are known everywhere, also in front of the command.
-/

namespace Renumber.CommandLine

/-- The commands. -/
inductive Verb where
  | rename
  | touch
  | undo
  | redo
  | history
  | nextCounter
  | counterIn
  | version
  deriving DecidableEq, Repr

/-- The word for a command. -/
def Verb.word : Verb → String
  | rename => "rename"
  | touch => "touch"
  | undo => "undo"
  | redo => "redo"
  | history => "history"
  | nextCounter => "next-seq"
  | counterIn => "parse-seq"
  | version => "version"

/-- All commands. -/
def Verb.all : List Verb :=
  [rename, touch, undo, redo, history, nextCounter, counterIn, version]

/-- The command of a word. -/
def Verb.ofWord? (word : String) : Option Verb :=
  all.find? fun verb => verb.word == word

/-- The options. -/
inductive Switch where
  | noColor
  | directory
  | undoLog
  | logFile
  | onError
  | output
  | quiet
  | pattern
  | start
  | destination
  | recursive
  | noUnique
  | dryRun
  | modified
  | accessed
  | created
  | readonly
  | writable
  | limit
  deriving DecidableEq, Repr

namespace Switch

/-- The long name, if the option has one. -/
def long? : Switch → Option String
  | noColor => some "no-color"
  | directory => none
  | undoLog => some "undo-log"
  | logFile => some "log-file"
  | onError => some "on-error"
  | output => some "output"
  | quiet => some "quiet"
  | pattern => some "pattern"
  | start => some "start"
  | destination => some "dest-dir"
  | recursive => some "recursive"
  | noUnique => some "no-unique"
  | dryRun => some "dry-run"
  | modified => some "modified"
  | accessed => some "accessed"
  | created => some "created"
  | readonly => some "readonly"
  | writable => some "writable"
  | limit => some "limit"

/-- The letter, if the option has one. -/
def short? : Switch → Option Char
  | directory => some 'C'
  | pattern => some 'p'
  | start => some 's'
  | recursive => some 'r'
  | _ => none

/-- The option takes a value. -/
def takesValue : Switch → Bool
  | noColor => false
  | quiet => false
  | recursive => false
  | noUnique => false
  | dryRun => false
  | readonly => false
  | writable => false
  | _ => true

/-- The options that are known everywhere. -/
def everywhere : List Switch :=
  [noColor, directory, undoLog, logFile, onError]

/-- The options of a command of its own. -/
def ofVerb : Verb → List Switch
  | .rename =>
    [output, quiet, pattern, start, destination, recursive, noUnique, dryRun]
  | .touch => [output, quiet, modified, accessed, created, readonly, writable, dryRun]
  | .undo => [output, quiet]
  | .redo => [output, quiet]
  | .history => [output, limit]
  | .nextCounter => [output, pattern, start, destination]
  | .counterIn => [output, pattern]
  | .version => [output]

/-- The options that are known behind a command, or in front of it. -/
def known : Option Verb → List Switch
  | some verb => ofVerb verb ++ everywhere
  | none => everywhere

end Switch

end Renumber.CommandLine
