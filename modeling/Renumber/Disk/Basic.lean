import Renumber.Disk.Fault
import Renumber.Time.Instant

/-!
# A disk as a value

A disk maps locations to entries. A location is the list of names on the way from the
root, so moving an entry changes keys and nothing else. A file entry refers to its
data by a number: entries with one number are one file under several names, and data
whose last entry is gone can still be written by whoever has it open.
-/

namespace Renumber

open Renumber.Time (Instant)

/-- The names on the way from the root; the root itself is the empty list. -/
abbrev Location := List Name

/-- What is recorded about a file or a folder besides what it holds. -/
structure Stats where
  mode : UInt32
  modified : Instant
  accessed : Instant
  created : Instant
  deriving DecidableEq, Repr

/-- What stands at a location. -/
inductive Entry where
  | folder (stats : Stats)
  | file (id : Nat)
  | link (target : Path)
  deriving DecidableEq, Repr

/-- The bytes of a file and its stats. -/
structure FileData where
  content : List UInt8
  stats : Stats
  deriving DecidableEq, Repr

/-- All entries and all file data. `fresh` and above are not yet used as numbers. -/
structure Disk where
  entries : Std.TreeMap Location Entry
  files : Std.TreeMap Nat FileData
  fresh : Nat

namespace Disk

/-- The entry at a location. -/
def get? (d : Disk) (loc : Location) : Option Entry :=
  d.entries[loc]?

/-- The data of a file number. -/
def file? (d : Disk) (id : Nat) : Option FileData :=
  d.files[id]?

/-- Put an entry at a location, replacing what was there. -/
def put (d : Disk) (loc : Location) (e : Entry) : Disk :=
  { d with entries := d.entries.insert loc e }

/-- Take away the entry at a location. -/
def drop (d : Disk) (loc : Location) : Disk :=
  { d with entries := d.entries.erase loc }

/-- Change the data of a file. -/
def setFile (d : Disk) (id : Nat) (data : FileData) : Disk :=
  { d with files := d.files.insert id data }

theorem get?_put (d : Disk) (a b : Location) (e : Entry) :
    (d.put a e).get? b = if a = b then some e else d.get? b := by
  simp [put, get?, Std.TreeMap.getElem?_insert]

theorem get?_drop (d : Disk) (a b : Location) :
    (d.drop a).get? b = if a = b then none else d.get? b := by
  simp [drop, get?, Std.TreeMap.getElem?_erase]

theorem file?_setFile (d : Disk) (a b : Nat) (data : FileData) :
    (d.setFile a data).file? b = if a = b then some data else d.file? b := by
  simp [setFile, file?, Std.TreeMap.getElem?_insert]

/-- Some entry lies below a location. -/
def hasChildren (d : Disk) (folder : Location) : Bool :=
  d.entries.keys.any fun loc => folder.isPrefixOf loc && loc != folder

/-- A location after everything at and below `source` moved to `target`. -/
def relocated (source target loc : Location) : Location :=
  if source.isPrefixOf loc then target ++ loc.drop source.length else loc

/-- Move an entry and all that lies below it. -/
def moveEntry (d : Disk) (source target : Location) : Disk :=
  match d.get? source with
  | none => d
  | some (.folder _) =>
    let moved := d.entries.toList.map fun (loc, e) => (relocated source target loc, e)
    { d with entries := Std.TreeMap.ofList moved }
  | some e => (d.drop source).put target e

/-- Change the stats of whatever is at a location; a link keeps none. -/
def mapStats (d : Disk) (loc : Location) (f : Stats → Stats) : Disk :=
  match d.get? loc with
  | some (.folder stats) => d.put loc (.folder (f stats))
  | some (.file id) =>
    match d.file? id with
    | some data => d.setFile id { data with stats := f data.stats }
    | none => d
  | _ => d

/-- The stats of whatever is at a location. -/
def stats? (d : Disk) (loc : Location) : Option Stats :=
  match d.get? loc with
  | some (.folder stats) => some stats
  | some (.file id) => (d.file? id).map FileData.stats
  | _ => none

/-- A folder's contents changed. -/
def stampFolder (d : Disk) (now : Instant) (folder : Location) : Disk :=
  match d.get? folder with
  | some (.folder stats) => d.put folder (.folder { stats with modified := now })
  | _ => d

/-- The stats of something made just now. -/
def freshStats (mode : UInt32) (now : Instant) : Stats :=
  ⟨mode, now, now, now⟩

/-- A disk that holds the root folder only. -/
def empty (now : Instant) : Disk :=
  ⟨(∅ : Std.TreeMap Location Entry).insert [] (.folder (freshStats 0o755 now)), ∅, 0⟩

end Disk

end Renumber
