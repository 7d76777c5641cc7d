import Renumber.World.Basic

/-!
# Handling files

Moving a file without ever replacing another one, making folders with all folders
above them, and reading and writing whole files. Only the move is guarded: nothing may
be at its target. Folders above the target are made before the move and stay when the
move itself fails.
-/

namespace Renumber.World

/-- The proper ancestors of a path, nearest first. -/
def ancestorsFrom : Nat → Path → List Path
  | 0, _ => []
  | fuel + 1, p =>
    match p.parent? with
    | some q => q :: ancestorsFrom fuel q
    | none => []

/-- The proper ancestors of a path, nearest first; each is shorter than the one
before. -/
def ancestors (p : Path) : List Path :=
  ancestorsFrom p.bytes.length p

/-- A path that needs no folder made: the root and the path without components. -/
def isGiven (p : Path) : Bool :=
  p.isEmpty || p.parent?.isNone

/-- Make one folder; one that is there already will do. -/
def ensureFolder (p : Path) : Act DiskFault Unit :=
  tryCatch (act (.makeFolder p)) fun fault => do
    unless (← get).isFolder p do throw fault

/-- Make a folder below its ancestors, which are made first when they are missing. -/
def makeFoldersFrom (p : Path) : List Path → Act DiskFault Unit
  | [] => if isGiven p then return () else ensureFolder p
  | above :: rest =>
    if isGiven p then return ()
    else tryCatch (ensureFolder p) fun fault =>
      if fault = .missing then do
        makeFoldersFrom above rest
        ensureFolder p
      else throw fault

/-- Make a folder and all that are missing above it. -/
def makeFolders (p : Path) : Act DiskFault Unit :=
  makeFoldersFrom p (ancestors p)

/-- Make the folder that a file will stand in. -/
def makeParent (p : Path) : Act DiskFault Unit :=
  match p.parent? with
  | some folder => if folder.isEmpty then return () else makeFolders folder
  | none => return ()

/-- Move `source` to `target`, which must be free. Where letter case does not count, a change of case
alone would go by way of another name; it counts in all folders of this disk (`foldsCase`), so that is
never done. -/
def renameFile (source target : Path) : Act DiskFault Unit := do
  discard <| ask fun disk cwd => disk.findEntry cwd false source
  if (← get).present target then throw (.occupied target)
  match target.parent? with
  | some folder =>
    unless folder.isEmpty || (← get).reaches folder do makeFolders folder
  | none => pure ()
  act (.move source target)

/-- Replace the bytes of a file, which is made when it is missing. -/
def writeFile (p : Path) (content : List UInt8) : Act DiskFault Unit :=
  act (.write p content)

/-- Remove a file. -/
def removeFile (p : Path) : Act DiskFault Unit :=
  act (.remove p)

/-- The bytes of a file. -/
def readFile (p : Path) : Act DiskFault (List UInt8) :=
  ask fun disk cwd => disk.readFile cwd p

end Renumber.World
