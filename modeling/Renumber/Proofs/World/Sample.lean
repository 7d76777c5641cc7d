import Renumber.World.Basic

/-!
# Small worlds

Worlds to evaluate things in: one folder, which is the working folder, and some files
in it.
-/

namespace Renumber

/-- The folder of the small worlds. -/
def sampleFolder : Location := [Text.bytesOf "w"]

/-- Put a file with some text into the folder. -/
def Disk.withFile (d : Disk) (name text : String) : Disk :=
  let (d, id) := d.addFile default sampleFolder (Text.bytesOf name)
  d.writeFile default id (Text.bytesOf text)

/-- A world with one folder and some files, each with a name and a text. -/
def World.sample (files : List (String × String)) : World where
  disk := files.foldl (fun d (name, text) => d.withFile name text)
    ((Disk.empty default).put sampleFolder (.folder (Disk.freshStats Disk.folderMode default)))
  cwd := sampleFolder
  clock := default

/-- A small world with one more folder in its folder. -/
def World.withFolder (w : World) (name : String) : World :=
  let folder : Entry := .folder (Disk.freshStats Disk.folderMode default)
  { w with disk := w.disk.put (sampleFolder ++ [Text.bytesOf name]) folder }

/-- A small world in which a file of its folder can be written, but not be read. -/
def World.withUnreadable (w : World) (name : String) : World :=
  let unreadable : Stats → Stats := fun stats => { stats with mode := Disk.ownerWrite }
  { w with disk := w.disk.mapStats (sampleFolder ++ [Text.bytesOf name]) unreadable }

/-- A small world with a link in its folder, which leads to another name there. -/
def World.withLink (w : World) (name target : String) : World :=
  { w with disk := w.disk.put (sampleFolder ++ [Text.bytesOf name]) (.link (.ofString target)) }

end Renumber
