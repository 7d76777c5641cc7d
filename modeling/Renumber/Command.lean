import Renumber.Time.Instant
import Renumber.WorkingSet

/-!
# Commands

A command is one reversible step: moving a file, writing a file's state, or editing
what is wanted for files of the working set. Every command has an inverse that leads
back. Commands on files are recorded in logs; edits live in memory only.
-/

namespace Renumber

/-- The kind of a command or a batch. -/
inductive CommandKind where
  | rename
  | touch
  | redirect
  | restate
  | reset
  | edit
  deriving DecidableEq, Repr

namespace CommandKind

/-- The word for a kind in logs and reports. -/
def key : CommandKind → String
  | rename => "RENAME"
  | touch => "TOUCH"
  | redirect => "CHANGE_DEST_PATHS"
  | restate => "CHANGE_DEST_STATES"
  | reset => "RESET_DESTINATIONS"
  | edit => "EDIT"

/-- All kinds. -/
def all : List CommandKind :=
  [rename, touch, redirect, restate, reset, edit]

/-- The kind of a word. -/
def ofKey? (key : String) : Option CommandKind :=
  all.find? fun kind => kind.key == key

/-- Commands of this kind work on files and are recorded. -/
def isRecorded : CommandKind → Bool
  | rename => true
  | touch => true
  | _ => false

end CommandKind

/-- What is wanted for a source, before and after a change. -/
structure Change (α : Type) where
  source : Path
  before : α
  after : α
  deriving DecidableEq, Repr

/-- The change that leads back. -/
def Change.inverse {α : Type} (c : Change α) : Change α :=
  ⟨c.source, c.after, c.before⟩

@[simp] theorem Change.inverse_inverse {α : Type} (c : Change α) : c.inverse.inverse = c := rfl

/-- One reversible step. -/
inductive Command where
  /-- Move a file. -/
  | rename (source target : Path)
  /-- Write the state `target` to its file, whose state was `former`. -/
  | touch (former target : FileState)
  /-- Change wanted destinations. -/
  | redirect (changes : List (Change Path))
  /-- Change wanted file states. -/
  | restate (changes : List (Change FileState))
  /-- Take back wanted destinations and file states. -/
  | reset (paths : List (Change Path)) (states : List (Change FileState))
  /-- Change one wanted destination. -/
  | edit (change : Change Path)
  deriving DecidableEq, Repr

namespace Command

/-- The kind of a command. -/
def kind : Command → CommandKind
  | rename .. => .rename
  | touch .. => .touch
  | redirect .. => .redirect
  | restate .. => .restate
  | reset .. => .reset
  | edit .. => .edit

/-- The command works on files. -/
def isRecorded (c : Command) : Bool :=
  c.kind.isRecorded

/-- The command in words. -/
def description : Command → String
  | rename source target => "Rename " ++ source.display ++ " -> " ++ target.display
  | touch _ target => "Touch " ++ target.path.display
  | redirect changes => "Change " ++ toString changes.length ++ " destination path(s)"
  | restate changes => "Change " ++ toString changes.length ++ " destination state(s)"
  | reset paths states => "Reset " ++ toString (paths.length + states.length) ++ " destination(s)"
  | edit change => "Edit destination of " ++ change.source.display

/-- The command that leads back. -/
def inverse : Command → Command
  | rename source target => .rename target source
  | touch former target => .touch target former
  | redirect changes => .redirect (changes.map Change.inverse)
  | restate changes => .restate (changes.map Change.inverse)
  | reset paths states => .reset (paths.map Change.inverse) (states.map Change.inverse)
  | edit change => .edit change.inverse

@[simp] theorem inverse_inverse (c : Command) : c.inverse.inverse = c := by
  cases c <;> simp [inverse, Function.comp_def]

/-- The first source of some changes that a map does not know. -/
def unknownSource? {α β : Type} (items : PathMap α) (changes : List (Change β)) : Option Path :=
  (changes.find? fun c => (items.findItem? c.source).isNone).map Change.source

/-- Apply changes of wanted destinations. All sources are looked up first, so that
either every change is made or none. -/
def applyPaths (changes : List (Change Path)) : ExceptT Failure (StateM Workspace) Unit := do
  let set := (← Workspace.workingSet).withRename
  Workspace.setItems set
  let items := set.renameItems
  match unknownSource? items changes with
  | some source => throw (.unknownItem source)
  | none =>
    let changed := changes.foldl (fun items c => items.set c.source c.after) items
    Workspace.setItems { set with rename := some changed }

/-- Apply changes of wanted file states. All sources are looked up first, so that
either every change is made or none. -/
def applyStates (changes : List (Change FileState)) :
    ExceptT Failure (StateM Workspace) Unit := do
  let set ← Workspace.workingSet
  if changes.isEmpty then return ()
  let items ← Workspace.onWorld set.touchItems
  Workspace.setItems { set with touch := some items }
  match unknownSource? items changes with
  | some source => throw (.unknownItem source)
  | none =>
    let changed := changes.foldl (fun items c =>
      match items.find? c.source with
      | some item => items.set c.source { item with wanted := c.after }
      | none => items) items
    Workspace.setItems { set with touch := some changed }

/-- Run a command. -/
def execute : Command → ExceptT Failure (StateM Workspace) Unit
  | rename source target =>
    Workspace.onWorld <|
      ExceptT.adapt (Failure.renameFailed source target) (World.renameFile source target)
  | touch _ target =>
    Workspace.onWorld <| ExceptT.adapt (Failure.touchFailed target.path) target.apply
  | redirect changes => applyPaths changes
  | restate changes => applyStates changes
  | reset paths states => do
    applyPaths paths
    applyStates states
  | edit change => applyPaths [change]

end Command

end Renumber
