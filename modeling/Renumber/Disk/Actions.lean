import Renumber.Disk.Walk

/-!
# Actions on a disk

Each action either gives the changed disk or the cause why nothing changed. Actions
that make several changes are built from these elsewhere, so what a failure can leave
behind is visible where it arises.
-/

namespace Renumber

open Renumber.Time (Instant)

namespace Disk

/-- The permission bits that a mode may set. -/
def modeMask : UInt32 := 0o7777

/-- The mode of new folders. -/
def folderMode : UInt32 := 0o755

/-- The mode of new files. -/
def fileMode : UInt32 := 0o644

/-- The permission bit of reading by the owner. -/
def ownerRead : UInt32 := 0o400

/-- The permission bit of writing by the owner. -/
def ownerWrite : UInt32 := 0o200

/-- Whoever works on the disk owns all files, and nothing else gives access to them. -/
def checkAccess (d : Disk) (id : Nat) (bit : UInt32) : Except DiskFault Unit :=
  match d.file? id with
  | some data => if data.stats.mode &&& bit = 0 then .error .denied else .ok ()
  | none => .ok ()

/-- Make one folder. -/
def makeFolder (d : Disk) (now : Instant) (cwd : Location) (p : Path) :
    Except DiskFault Disk := do
  let last ← d.findLast cwd p
  match last.name with
  | none => throw .exists
  | some name =>
    if name.length > maxName then throw .tooLong
    let loc := last.folder ++ [name]
    match d.get? loc with
    | some _ => throw .exists
    | none => return (d.put loc (.folder (freshStats folderMode now))).stampFolder now last.folder

/-- Put a new empty file into a folder; its number comes with it. -/
def addFile (d : Disk) (now : Instant) (folder : Location) (name : Name) : Disk × Nat :=
  let id := d.fresh
  let d := { d with fresh := id + 1 }
  let d := (d.setFile id ⟨[], freshStats fileMode now⟩).put (folder ++ [name]) (.file id)
  (d.stampFolder now folder, id)

/-- Open a file for writing, making it when it is missing. -/
def openFile (d : Disk) (now : Instant) (cwd : Location) (p : Path) :
    Except DiskFault (Disk × Nat) := do
  match ← d.find cwd true p with
  | .taken _ (.file id) =>
    d.checkAccess id ownerWrite
    return (d, id)
  | .taken _ _ => throw .isFolder
  | .vacant folder name slashed =>
    if slashed then throw .isFolder
    return d.addFile now folder name

/-- Replace the bytes of a file. -/
def writeFile (d : Disk) (now : Instant) (id : Nat) (content : List UInt8) : Disk :=
  match d.file? id with
  | some data => d.setFile id ⟨content, { data.stats with modified := now }⟩
  | none => d

/-- Write bytes behind those of a file. -/
def appendFile (d : Disk) (now : Instant) (id : Nat) (content : List UInt8) : Disk :=
  match d.file? id with
  | some data => d.writeFile now id (data.content ++ content)
  | none => d

/-- Remove a file or a link. -/
def removeFile (d : Disk) (now : Instant) (cwd : Location) (p : Path) : Except DiskFault Disk := do
  let last ← d.findLast cwd p
  match last.name with
  | none => throw .isFolder
  | some name =>
    let loc := last.folder ++ [name]
    match d.get? loc with
    | none => throw (if name.length > maxName then .tooLong else .missing)
    | some (.folder _) => throw .isFolder
    | some _ =>
      if last.slashed then throw .notFolder
      return (d.drop loc).stampFolder now last.folder

/-- Set the permission bits of what a path leads to. -/
def setMode (d : Disk) (cwd : Location) (p : Path) (mode : UInt32) : Except DiskFault Disk := do
  let (loc, _) ← d.findEntry cwd true p
  return d.mapStats loc fun stats => { stats with mode := mode &&& modeMask }

/-- Set the given times of the file that a path leads to. -/
def setTimes (d : Disk) (cwd : Location) (p : Path) (modified accessed : Option Instant) :
    Except DiskFault Disk := do
  match ← d.findEntry cwd true p with
  | (loc, .file _) =>
    return d.mapStats loc fun stats =>
      { stats with
        modified := (modified.map Instant.carry).getD stats.modified
        accessed := (accessed.map Instant.carry).getD stats.accessed }
  | _ => throw .isFolder

/-- The stats of what a path leads to. -/
def readStats (d : Disk) (cwd : Location) (p : Path) : Except DiskFault Stats := do
  let (loc, _) ← d.findEntry cwd true p
  match d.stats? loc with
  | some stats => return stats
  | none => throw .missing

/-- The bytes of the file that a path leads to. -/
def readFile (d : Disk) (cwd : Location) (p : Path) : Except DiskFault (List UInt8) := do
  match ← d.findEntry cwd true p with
  | (_, .file id) =>
    d.checkAccess id ownerRead
    return ((d.file? id).map FileData.content).getD []
  | _ => throw .isFolder

/-- The number of the file that a path leads to. -/
def fileNumber (d : Disk) (cwd : Location) (p : Path) : Except DiskFault Nat := do
  match ← d.findEntry cwd true p with
  | (_, .file id) => return id
  | _ => throw .isFolder

/-- Two entries are one and the same file. -/
def sameFile : Entry → Entry → Bool
  | .file a, .file b => a == b
  | _, _ => false

/-- What stands in the way of a move: a folder may replace an empty folder, anything
else may replace what is no folder. -/
def checkReplace (d : Disk) (moved : Entry) (loc : Location) : Option Entry → Except DiskFault Unit
  | none => .ok ()
  | some (.folder _) =>
    match moved with
    | .folder _ => if d.hasChildren loc then .error .notEmpty else .ok ()
    | _ => .error .isFolder
  | some _ =>
    match moved with
    | .folder _ => .error .notFolder
    | _ => .ok ()

/-- Move an entry to another place, replacing what may be replaced there. -/
def move (d : Disk) (now : Instant) (cwd : Location) (source target : Path) :
    Except DiskFault Disk := do
  checkText source
  checkText target
  let old ← d.findLast cwd source
  let new ← d.findLast cwd target
  match old.name, new.name with
  | some oldName, some newName =>
    let oldLoc := old.folder ++ [oldName]
    let newLoc := new.folder ++ [newName]
    match d.get? oldLoc with
    | none => throw (if oldName.length > maxName then .tooLong else .missing)
    | some entry =>
      if newName.length > maxName then throw .tooLong
      let replaced := d.get? newLoc
      match entry with
      | .folder _ => pure ()
      | _ => if old.slashed || new.slashed then throw .notFolder
      if oldLoc.isPrefixOf new.folder then throw .invalid
      if newLoc.isPrefixOf old.folder then throw .notEmpty
      if oldLoc = newLoc || replaced.any (sameFile entry) then return d
      checkReplace d entry newLoc replaced
      let d := (d.drop newLoc).moveEntry oldLoc newLoc
      return (d.stampFolder now old.folder).stampFolder now new.folder
  | _, _ => throw .busy

end Disk

end Renumber
