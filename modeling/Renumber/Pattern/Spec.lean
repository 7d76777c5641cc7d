import Renumber.Path.Basic
import Renumber.Pattern.Part

/-!
# Patterns for whole names

A pattern has a part for the name and a rule for the extension: keep the one of the
source, drop it, or format one of its own. Written as one text the two are separated
by the last dot. Formatting a path replaces its last component and, if asked, the
folder; a decorator `_(n)` tells equal names apart.
-/

namespace Renumber.Pattern

/-- What becomes of the extension. -/
inductive ExtensionRule where
  | keep
  | drop
  | format (part : Part)
  deriving DecidableEq, Repr

/-- The part that formats the extension, if there is one. -/
def ExtensionRule.part? : ExtensionRule → Option Part
  | keep => some (Part.parse ['*'])
  | drop => none
  | format part => some part

/-- A pattern for whole names. -/
structure Spec where
  name : Part
  extension : ExtensionRule
  deriving DecidableEq, Repr

/-- The text before the last dot and the text after it. -/
def splitLastDot? (s : List Char) : Option (List Char × List Char) :=
  let after := s.reverse.takeWhile (· != '.')
  if after.length < s.length then
    some (s.take (s.length - after.length - 1), after.reverse)
  else none

/-- The stem and the extension of a file name. A dot in front begins no extension. -/
def splitName (s : List Char) : List Char × List Char :=
  match splitLastDot? s with
  | some (stem, extension) => if stem.isEmpty then (s, []) else (stem, extension)
  | none => (s, [])

/-- The decorator that tells equal names apart. -/
def duplicateSuffix (n : Nat) : List Char :=
  '_' :: '(' :: (Nat.toDigits 10 n ++ [')'])

namespace Spec

/-- A pattern from its two parts: no extension keeps that of the source, a lone dot
drops it. A counter in the name leaves none for the extension. -/
def ofParts (name extension : List Char) : Spec :=
  let part := Part.parse name
  ⟨part,
    if extension = [] then .keep
    else if extension = ['.'] then .drop
    else .format (Part.parse extension part.hasCounter)⟩

/-- A pattern from one text, split at its last dot. -/
def parse (pattern : List Char) : Spec :=
  match splitLastDot? pattern with
  | some (name, extension) => ofParts name (if extension = [] then ['.'] else extension)
  | none => ofParts pattern []

/-- The pattern as one text. -/
def pattern (s : Spec) : List Char :=
  match s.extension with
  | .keep => s.name.pattern
  | .drop => s.name.pattern ++ ['.']
  | .format part => s.name.pattern ++ '.' :: part.pattern

/-- The extension of the source is dropped. -/
def dropsExtension (s : Spec) : Bool :=
  s.extension = .drop

/-- A usable pattern has a counter or a wildcard in the name or in an extension of its
own; otherwise all names would be equal. -/
def isUsable (s : Spec) : Bool :=
  s.name.hasCounter || s.name.hasWildcard ||
    match s.extension with
    | .format part => part.hasCounter || part.hasWildcard
    | _ => false

/-- Format a file name, with a decorator behind the stem if one is given. -/
def formatName (s : Spec) (name : List Char) (counter : Nat) (duplicate : Option Nat) :
    Formatted :=
  let (stem, extension) := splitName name
  let out := s.name.format stem counter
  let text := out.text ++ (duplicate.map duplicateSuffix).getD []
  match s.extension.part? with
  | none => ⟨text, out.warnings⟩
  | some part =>
    let ext := part.format extension counter
    ⟨if ext.text.isEmpty then text else text ++ '.' :: ext.text, out.warnings ++ ext.warnings⟩

/-- The name of a path as text. -/
def nameText (p : Path) : List Char :=
  (p.fileName?.map Text.decodeLossy).getD []

/-- Format the destination of a source, in the source's own folder or in the one
given. -/
def formatPath (s : Spec) (source : Path) (counter : Nat) (duplicate : Option Nat)
    (folder : Option Path) : Path × List Shortfall :=
  let out := s.formatName (nameText source) counter duplicate
  let dir := (folder <|> source.parent?).getD ⟨[]⟩
  (dir.join ⟨Text.encode out.text⟩, out.warnings)

/-- Some part of the pattern numbers. -/
def hasCounter (s : Spec) : Bool :=
  s.name.hasCounter ||
    match s.extension.part? with
    | some part => part.hasCounter
    | none => false

/-- The ways to cut a file name into stem and extension: not at all, then at each dot
from the last to the first. -/
def cuts (name : List Char) : List (List Char × Option (List Char)) :=
  (name, none) :: ((List.range name.length).reverse.filterMap fun i =>
    if name[i]? = some '.' then some (name.take i, some (name.drop (i + 1))) else none)

/-- The counter that the parts find in a cut name, the stem's before the extension's. -/
def counterOfCut? (s : Spec) (stem : List Char) (extension : Option (List Char)) : Option Nat :=
  match s.name.match? stem with
  | none => none
  | some stemCounter =>
    match s.extension.part?, extension with
    | none, none => stemCounter
    | none, some _ => none
    | some part, extension =>
      match part.match? (extension.getD []) with
      | none => none
      | some extCounter => stemCounter <|> extCounter

/-- The counter in a file name that this pattern can have formatted. -/
def counterOf? (s : Spec) (name : List Char) : Option Nat :=
  if s.hasCounter then (cuts name).findSome? fun (stem, ext) => s.counterOfCut? stem ext
  else none

/-- The counter in the name of a path. -/
def counterOfPath? (s : Spec) (p : Path) : Option Nat :=
  p.fileName?.bind fun name => s.counterOf? (Text.decodeLossy name)

end Spec

end Renumber.Pattern
