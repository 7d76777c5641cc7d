import Renumber.FileState
import Renumber.Json.Basic
import Renumber.Time.Reader

/-!
# File states in logs

A file state is written as a JSON object in a fixed order of fields, the mode only when
it is known. Reading takes the fields in any order, ignores others, and takes a list of
the values as well; times are read in the relaxed notation.
-/

namespace Renumber.FileState

open Renumber.Time (Instant readInstant?)

/-- A time as JSON. -/
def timeJson : Option Instant → Json :=
  Json.ofOption fun t => .text t.zuluText

/-- The state as JSON; its path must be text. -/
def toJson (s : FileState) : Except DiskFault Json :=
  match s.path.toString? with
  | none => .error .stateNotText
  | some path =>
    let mode := match s.mode with
      | some mode => [("mode", Json.ofNat mode.toNat)]
      | none => []
    .ok (.object ([
      ("path", .text path),
      ("attributes", .ofNat s.attributes.bits.toNat),
      ("modified", timeJson s.modified),
      ("created", timeJson s.created),
      ("accessed", timeJson s.accessed)] ++ mode))

/-- A number of 32 bits. -/
def word? : Json → Option UInt32
  | .number (.whole n) => if n < UInt32.size then some (UInt32.ofNat n) else none
  | _ => none

/-- A value that may be missing. -/
def optional {α : Type} (read : Json → Option α) : Json → Option (Option α)
  | .null => some none
  | v => (read v).map some

/-- A path. -/
def path? : Json → Option Path
  | .text s => some (.ofString s)
  | _ => none

/-- A time. -/
def time? : Json → Option Instant
  | .text s => readInstant? s.toList
  | _ => none

/-- The state of its values. -/
def ofValues? (path attributes modified created accessed mode : Json) : Option FileState := do
  return ⟨← path? path, ⟨← word? attributes⟩, ← optional time? modified, ← optional time? created,
    ← optional time? accessed, ← optional word? mode⟩

/-- The state that JSON stands for. -/
def ofJson? : Json → Option FileState
  | .object fields =>
    let get := fun name => (Json.field? name fields).getD .null
    ofValues? (get "path") (get "attributes") (get "modified") (get "created") (get "accessed")
      (get "mode")
  | .list [path, attributes, modified, created, accessed] =>
    ofValues? path attributes modified created accessed .null
  | .list [path, attributes, modified, created, accessed, mode] =>
    ofValues? path attributes modified created accessed mode
  | _ => none

end Renumber.FileState
