import Renumber.CommandLine.Option

/-!
# Splitting a command line

A command line consists of options, the command, and what the command is about. Options
may stand anywhere up to two dashes, and letters may be written together behind one
dash. A value follows its option, or an equals sign; one that begins with a dash is
taken for an option unless it is joined to its own.
-/

namespace Renumber.CommandLine

/-- An option with its value; the value of an option that takes none is empty. -/
structure Given where
  switch : Switch
  value : String
  deriving DecidableEq, Repr

/-- A command line in parts. -/
structure Parts where
  verb : Option Verb := none
  /-- The options in front of the command. -/
  before : List Given := []
  /-- The options behind the command. -/
  behind : List Given := []
  operands : List String := []
  deriving DecidableEq, Repr

/-- Why a command line makes no sense. -/
inductive UsageFault where
  | unknownOption (word : String)
  | unknownCommand (word : String)
  | unexpected (word : String)
  | missingValue (switch : Switch)
  | unwantedValue (switch : Switch)
  | repeated (switch : Switch)
  | badValue (switch : Switch) (value : String)
  | excluded (a b : Switch)
  | missingOperand
  | emptyPath
  | missingCommand
  /-- The version is asked for, which ends the reading. -/
  | versionWanted
  deriving DecidableEq, Repr

namespace Parts

/-- A switch was given at the place where the reader is. -/
def hasGiven (p : Parts) (switch : Switch) : Bool :=
  (if p.verb.isSome then p.behind else p.before).any (·.switch = switch)

/-- Add an option; none may be repeated. -/
def give (p : Parts) (switch : Switch) (value : String) : Except UsageFault Parts :=
  if p.hasGiven switch then .error (.repeated switch)
  else if p.verb.isSome then .ok { p with behind := p.behind ++ [⟨switch, value⟩] }
  else .ok { p with before := p.before ++ [⟨switch, value⟩] }

/-- Add a word that is no option. -/
def addWord (p : Parts) (word : String) : Except UsageFault Parts :=
  match p.verb with
  | some _ => .ok { p with operands := p.operands ++ [word] }
  | none =>
    match Verb.ofWord? word with
    | some verb => .ok { p with verb := some verb }
    | none => .error (.unknownCommand word)

end Parts

/-- A word that is taken for an option. -/
def looksLikeOption (word : String) : Bool :=
  match word.toList with
  | '-' :: _ :: _ => true
  | _ => false

/-- What an option needs from the words behind it. -/
inductive Need where
  | nothing (parts : Parts)
  /-- The next word is the value of this option. -/
  | value (parts : Parts) (switch : Switch)

/-- Read a long option: its name and possibly its value. -/
def readLong (p : Parts) (name : List Char) (value : Option (List Char)) :
    Except UsageFault Need := do
  let word := String.ofList name
  match (Switch.known p.verb).find? fun s => s.long? == some word with
  | none =>
    if word == "version" && p.verb.isNone then throw .versionWanted
    else throw (.unknownOption word)
  | some switch =>
    match switch.takesValue, value with
    | true, some value => return .nothing (← p.give switch (String.ofList value))
    | true, none => return .value p switch
    | false, some _ => throw (.unwantedValue switch)
    | false, none => return .nothing (← p.give switch "")

/-- Read options written as letters. -/
def readLetters (p : Parts) : List Char → Except UsageFault Need
  | [] => .ok (.nothing p)
  | c :: rest => do
    match (Switch.known p.verb).find? fun s => s.short? == some c with
    | none =>
      if c == 'V' && p.verb.isNone then throw .versionWanted
      else throw (.unknownOption (String.singleton c))
    | some switch =>
      if switch.takesValue then
        match rest with
        | [] => return .value p switch
        | '=' :: value => return .nothing (← p.give switch (String.ofList value))
        | value => return .nothing (← p.give switch (String.ofList value))
      else readLetters (← p.give switch "") rest

/-- Read a word that looks like an option. -/
def readOption (p : Parts) (word : String) : Except UsageFault Need :=
  match word.toList with
  | '-' :: '-' :: rest =>
    let name := rest.takeWhile (· != '=')
    match rest.drop name.length with
    | '=' :: value => readLong p name (some value)
    | _ => readLong p name none
  | _ :: letters => readLetters p letters
  | [] => .ok (.nothing p)

/-- Read words; an option may wait for its value. -/
def readWords : Need → List String → Except UsageFault Parts
  | .nothing p, [] => .ok p
  | .value _ switch, [] => .error (.missingValue switch)
  | .value p switch, word :: rest =>
    if looksLikeOption word then .error (.missingValue switch)
    else do readWords (.nothing (← p.give switch word)) rest
  | .nothing p, word :: rest =>
    if word == "--" then
      match p.verb with
      | some _ => .ok { p with operands := p.operands ++ rest }
      | none => .error (.unexpected word)
    else if looksLikeOption word then do readWords (← readOption p word) rest
    else do readWords (.nothing (← p.addWord word)) rest

/-- The parts of a command line. -/
def split (words : List String) : Except UsageFault Parts :=
  readWords (.nothing {}) words

end Renumber.CommandLine
