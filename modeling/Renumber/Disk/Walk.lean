import Renumber.Disk.Basic

/-!
# Finding the place of a path

A path is walked segment by segment from the root or from the working folder. Every
segment but the last must lead to a folder, two dots lead to the folder above, and a
link on the way is replaced by its target. The last segment may be missing: its place
is then vacant. At most forty links are followed.
-/

namespace Renumber

namespace Disk

/-- Where a walk ends: at an entry, or at a place in a folder that holds none.
`slashed` tells that separators follow the name. -/
inductive Place where
  | taken (loc : Location) (entry : Entry)
  | vacant (folder : Location) (name : Name) (slashed : Bool)

/-- The outcome of walking until the next link. -/
inductive Leg where
  | done (place : Except DiskFault Place)
  /-- A link was met: go on from here along these segments. -/
  | detour (loc : Location) (segments : List (List UInt8))

/-- The longest name. -/
def maxName : Nat := 255

/-- The longest path. -/
def maxPath : Nat := 4095

/-- Walk without following links. `follow` tells whether a link in last place is
followed as well. -/
def walkLeg (d : Disk) (follow : Bool) : Location → List (List UInt8) → Leg
  | loc, [] =>
    match d.get? loc with
    | some e => .done (.ok (.taken loc e))
    | none => .done (.error .missing)
  | loc, s :: rest =>
    if s = [] ∨ s = [Path.dot] then walkLeg d follow loc rest
    else if s = [Path.dot, Path.dot] then walkLeg d follow loc.dropLast rest
    else if s.length > maxName then .done (.error .tooLong)
    else
      let next := loc ++ [s]
      match d.get? next with
      | none =>
        if rest.all List.isEmpty then .done (.ok (.vacant loc s (!rest.isEmpty)))
        else .done (.error .missing)
      | some (.folder _) => walkLeg d follow next rest
      | some (.file id) =>
        if rest.isEmpty then .done (.ok (.taken next (.file id)))
        else .done (.error .notFolder)
      | some (.link target) =>
        if rest.isEmpty && !follow then .done (.ok (.taken next (.link target)))
        else .detour (if target.isAbsolute then [] else loc) (Path.segments target.bytes ++ rest)

/-- Walk, following at most as many links as `budget` is above one. -/
def walkFrom (d : Disk) (follow : Bool) : Nat → Location → List (List UInt8) →
    Except DiskFault Place
  | 0, _, _ => .error .tooManyLinks
  | budget + 1, loc, segments =>
    match walkLeg d follow loc segments with
    | .done place => place
    | .detour loc segments => walkFrom d follow budget loc segments

/-- How many legs a walk may have. -/
def maxLegs : Nat := 41

/-- Refuse what is no path at all. -/
def checkText (p : Path) : Except DiskFault Unit :=
  if p.bytes.contains 0 then .error .zeroByte
  else if p.isEmpty then .error .missing
  else if p.bytes.length > maxPath then .error .tooLong
  else .ok ()

/-- The folder where the walk of a path begins. -/
def startOf (cwd : Location) (p : Path) : Location :=
  if p.isAbsolute then [] else cwd

/-- The place of a path. -/
def find (d : Disk) (cwd : Location) (follow : Bool) (p : Path) : Except DiskFault Place := do
  checkText p
  walkFrom d follow maxLegs (startOf cwd p) (Path.segments p.bytes)

/-- The entry of a path. -/
def findEntry (d : Disk) (cwd : Location) (follow : Bool) (p : Path) :
    Except DiskFault (Location × Entry) := do
  match ← d.find cwd follow p with
  | .taken loc e => return (loc, e)
  | .vacant _ _ _ => throw .missing

/-- Something is at the path; a link counts for itself. -/
def present (d : Disk) (cwd : Location) (p : Path) : Bool :=
  (d.findEntry cwd false p).isOk

/-- Something is at the path once links are followed. -/
def reaches (d : Disk) (cwd : Location) (p : Path) : Bool :=
  (d.findEntry cwd true p).isOk

/-- A folder is at the path once links are followed. -/
def isFolder (d : Disk) (cwd : Location) (p : Path) : Bool :=
  match d.findEntry cwd true p with
  | .ok (_, .folder _) => true
  | _ => false

/-- The folder that holds a path's last name, and that name; a path that ends in a dot
or at the root has none. -/
structure LastStep where
  folder : Location
  name : Option Name
  slashed : Bool

/-- Segments without empty ones at the end. -/
def stripEmpty (segments : List (List UInt8)) : List (List UInt8) :=
  (segments.reverse.dropWhile List.isEmpty).reverse

/-- Walk to the folder that holds a path's last name. -/
def findLast (d : Disk) (cwd : Location) (p : Path) : Except DiskFault LastStep := do
  checkText p
  let segments := Path.segments p.bytes
  let kept := stripEmpty segments
  let walked ← walkFrom d true maxLegs (startOf cwd p) kept.dropLast
  match walked with
  | .taken folder (.folder _) =>
    let last := kept.getLast?.filter fun s => s != [Path.dot] && s != [Path.dot, Path.dot]
    return ⟨folder, last, kept.length < segments.length⟩
  | .taken _ _ => throw .notFolder
  | .vacant _ _ _ => throw .missing

end Disk

end Renumber
