import Renumber.Path.Component
import Renumber.Text.Split
import Renumber.Text.Utf8

/-!
# Paths

A path is the bytes it was written with. Two paths are the same when their components
are: doubled and trailing separators and inner dots do not count. The text itself is
kept, because messages and logs show it as it was given.
-/

namespace Renumber

/-- A path as written. -/
structure Path where
  bytes : List UInt8
  deriving DecidableEq, Repr, Inhabited

namespace Path

/-- The separator of components. -/
def slash : UInt8 := 47

/-- The byte of a dot. -/
def dot : UInt8 := 46

/-- The path written as a string. -/
def ofString (s : String) : Path :=
  ⟨Text.bytesOf s⟩

/-- The path as a string, if its bytes are text. -/
def toString? (p : Path) : Option String :=
  (Text.decode? p.bytes).map String.ofList

/-- The path as shown in messages. -/
def display (p : Path) : String :=
  Text.lossyString p.bytes

/-- The runs of bytes between separators, empty ones included. -/
def segments (bytes : List UInt8) : List (List UInt8) :=
  Text.splitOn slash bytes

/-- Segments with separators between them. -/
def joinSegments (segments : List (List UInt8)) : List UInt8 :=
  Text.joinWith slash segments

/-- Joining undoes splitting. -/
@[simp] theorem joinSegments_segments (bytes : List UInt8) :
    joinSegments (segments bytes) = bytes :=
  Text.joinWith_splitOn slash bytes

/-- A segment that stands for a component. -/
def isReal (segment : List UInt8) : Bool :=
  segment != [] && segment != [dot]

/-- The component of a real segment. -/
def componentOf (segment : List UInt8) : Component :=
  if segment = [dot, dot] then .up else .name segment

/-- A path begins at the root. -/
def isAbsolute (p : Path) : Bool :=
  p.bytes.head? == some slash

/-- The part in front that is kept apart from the segments: the root, or a leading
dot, or nothing. -/
def lead (p : Path) : Option Component :=
  match p.bytes with
  | [] => none
  | [b] => if b = slash then some .root else if b = dot then some .here else none
  | b :: c :: _ =>
    if b = slash then some .root else if b = dot ∧ c = slash then some .here else none

/-- The segments behind the lead. -/
def tailSegments (p : Path) : List (List UInt8) :=
  if p.lead.isSome then segments p.bytes.tail else segments p.bytes

/-- The components in order. -/
def components (p : Path) : List Component :=
  p.lead.toList ++ (p.tailSegments.filter isReal).map componentOf

/-- Two spellings of one path. -/
def same (p q : Path) : Bool :=
  p.components == q.components

/-- The segments up to the last real one. -/
def realTail (segments : List (List UInt8)) : List (List UInt8) :=
  (segments.reverse.dropWhile (!isReal ·)).reverse

/-- The bytes of a lead. -/
def leadBytes : Option Component → List UInt8
  | some .root => [slash]
  | some .here => [dot]
  | _ => []

/-- The last component, when it is a name. -/
def fileName? (p : Path) : Option Name :=
  match p.components.getLast? with
  | some (.name n) => some n
  | _ => none

/-- The path without its last component; the root and the empty path have none. -/
def parent? (p : Path) : Option Path :=
  match realTail p.tailSegments with
  | [] => if p.lead = some .here then some ⟨[]⟩ else none
  | s :: rest =>
    some ⟨leadBytes p.lead ++ joinSegments (realTail (s :: rest).dropLast)⟩

/-- A path below another one; an absolute path stands for itself. -/
def join (base p : Path) : Path :=
  if p.isAbsolute then p
  else if base.bytes = [] ∨ base.bytes.getLast? = some slash then ⟨base.bytes ++ p.bytes⟩
  else ⟨base.bytes ++ slash :: p.bytes⟩

/-- A path with bytes written behind it. -/
def append (p : Path) (suffix : String) : Path :=
  ⟨p.bytes ++ Text.bytesOf suffix⟩

/-- A path is no path at all. -/
def isEmpty (p : Path) : Bool :=
  p.bytes.isEmpty

/-- Paths are ordered by their components. -/
instance : Ord Path where
  compare := compareOn components

instance : Std.TransOrd Path :=
  inferInstanceAs (Std.TransCmp (compareOn components))

theorem compare_eq_iff {p q : Path} : compare p q = .eq ↔ p.components = q.components :=
  Std.LawfulEqOrd.compare_eq_iff_eq (α := List Component)

theorem same_iff {p q : Path} : p.same q = true ↔ p.components = q.components := by
  simp [same]

end Path

end Renumber
