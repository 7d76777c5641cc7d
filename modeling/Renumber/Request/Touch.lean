import Renumber.Answer.Basic
import Renumber.Request.Basic
import Renumber.Time.Reader

/-!
# Requests to touch

Times and the read-only flag of files are set to what the request gives; what it does
not give stays. Files for which nothing changes are left alone.
-/

namespace Renumber

open Renumber.Time (Instant)

/-- What to touch, and how. -/
structure TouchRequest where
  sources : List Path
  modified : Option Instant := none
  accessed : Option Instant := none
  created : Option Instant := none
  readonly : Option Bool := none
  dryRun : Bool := false

namespace TouchRequest

variable {σ : Type}

/-- The time that a text asks for. -/
def timeOf (now : Instant) (s : String) : Except RequestFailure Instant :=
  match Time.parse? now s.toList with
  | some t => .ok t
  | none => .error (.badTime (String.ofList (Text.trim s.toList)))

/-- The state that a request wants for a file. -/
def edit (req : TouchRequest) (s : FileState) : FileState :=
  { s with
    modified := req.modified <|> s.modified
    accessed := req.accessed <|> s.accessed
    created := req.created <|> s.created
    attributes := match req.readonly with
      | some on => s.attributes.set Attributes.readonlyFlag on
      | none => s.attributes }

/-- A changed time in words. -/
def timeChange (name : String) (before after : Option Instant) : List String :=
  if before = after then []
  else [name ++ " " ++ (after.map Instant.shortText).getD "-"]

/-- What changes from one state to another, in words. -/
def changes (before after : FileState) : List String :=
  timeChange "modified" before.modified after.modified ++
    timeChange "accessed" before.accessed after.accessed ++
    timeChange "created" before.created after.created ++
    if before.attributes.readonly = after.attributes.readonly then []
    else [if after.attributes.readonly then "read-only" else "writable"]

/-- The modified files as shown. -/
def shown (items : TouchItems) : List TouchEntry :=
  items.modified.map fun item =>
    ⟨item.former.path.display, changes item.former item.wanted⟩

/-- Carry out a request to touch. -/
def run (env : Surroundings σ) (req : TouchRequest) : Request σ TouchAnswer :=
  env.inSession req.sources do
    discard <| Surroundings.step (Session.setTouch .plain req.edit)
    let answer : TouchAnswer :=
      { files := shown (← Surroundings.step Session.touchItems)
        dryRun := req.dryRun
        report := none }
    if req.dryRun || answer.files.isEmpty then return answer
    let c ← env.beginRun ("Touching " ++ toString answer.files.length ++ " files")
    discard <| Surroundings.step (Session.commitTouch c)
    return { answer with report := some (← Surroundings.endRun) }

end TouchRequest

end Renumber
