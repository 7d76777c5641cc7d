import Renumber.Toml.Draft
import Renumber.Toml.Quoted
import Renumber.Toml.Scalar

/-!
# Reading TOML

A document is a list of lines: headers, fields, comments and empty lines. Lists and
tables in braces may reach over lines and end with a comma. A document is refused as a
whole when a line makes no sense or something is defined twice; why does not matter to
anyone here.
-/

namespace Renumber.Toml

/-- Skip the blanks of a line. -/
def skipBlanks (s : List Char) : List Char :=
  s.dropWhile isBlank

/-- The rest of a line, which may be a comment, and its end. -/
def endLine? (s : List Char) : Option (List Char) :=
  let s := skipBlanks s
  let s := match s with
    | '#' :: rest => rest.dropWhile (!isForbidden ·)
    | _ => s
  if s.isEmpty then some [] else lineEnd? s

/-- Skip blanks, comments and line ends. -/
def skipLines : Nat → List Char → List Char
  | 0, s => s
  | fuel + 1, s =>
    let s := skipBlanks s
    if s.isEmpty then s
    else match endLine? s with
      | some rest => skipLines fuel rest
      | none => s

/-- Skip a gap in a value that may reach over lines. -/
def skipWide (s : List Char) : List Char :=
  skipLines s.length s

/-- A character of a key without quotes. -/
def isKeyChar (c : Char) : Bool :=
  c.isAlphanum || c == '_' || c == '-'

/-- One part of a key. -/
def readKeyPart (s : List Char) : Option (String × List Char) :=
  match s with
  | '"' :: rest => (shortText? '"' rest).map fun (t, rest) => (String.ofList t, rest)
  | '\'' :: rest => (shortText? '\'' rest).map fun (t, rest) => (String.ofList t, rest)
  | _ =>
    let name := s.takeWhile isKeyChar
    if name.isEmpty then none else some (String.ofList name, s.drop name.length)

/-- A key of one or more parts: those before the last one, the last one, and what
follows the blanks behind it. -/
def readKey : Nat → List Char → Option (List String × String × List Char)
  | 0, _ => none
  | fuel + 1, s => do
    let (part, rest) ← readKeyPart (skipBlanks s)
    match skipBlanks rest with
    | '.' :: rest =>
      let (path, name, rest) ← readKey fuel rest
      return (part :: path, name, rest)
    | rest => return ([], part, rest)

/-- The key at the front of a text. -/
def key? (s : List Char) : Option (List String × String × List Char) :=
  readKey (s.length + 1) s

mutual

/-- A value. `depth` is how many levels may still open. -/
def readValue : Nat → Nat → List Char → Option (Toml × List Char)
  | 0, _, _ => none
  | fuel + 1, depth, s =>
    match s, depth with
    | '[' :: rest, depth + 1 =>
      match skipWide rest with
      | ']' :: rest => some (.list [], rest)
      | rest => (readItems fuel depth rest).map fun (items, rest) => (.list items, rest)
    | '{' :: rest, depth + 1 =>
      match skipWide rest with
      | '}' :: rest => some (.table [], rest)
      | rest =>
        (readFields fuel depth [] rest).map fun (fields, rest) =>
          (.table (Draft.finishFields fields), rest)
    | s, _ =>
      match quotedText? s with
      | some quoted => quoted.map fun (t, rest) => (.text (String.ofList t), rest)
      | none =>
        let (word, rest) := bareSpan s
        (scalar? word).map fun v => (v, rest)

/-- The items of a list, one at least, and the closing bracket. -/
def readItems : Nat → Nat → List Char → Option (List Toml × List Char)
  | 0, _, _ => none
  | fuel + 1, depth, s =>
    match readValue fuel depth s with
    | none => none
    | some (v, rest) =>
      match skipWide rest with
      | ']' :: rest => some ([v], rest)
      | ',' :: rest =>
        match skipWide rest with
        | ']' :: rest => some ([v], rest)
        | rest => (readItems fuel depth rest).map fun (items, rest) => (v :: items, rest)
      | _ => none

/-- The fields of a table in braces, one at least, and the closing brace. -/
def readFields : Nat → Nat → Draft.Fields → List Char → Option (Draft.Fields × List Char)
  | 0, _, _, _ => none
  | fuel + 1, depth, fields, s =>
    match key? s with
    | some (path, name, '=' :: rest) =>
      match readValue fuel depth (skipBlanks rest) with
      | none => none
      | some (v, rest) =>
        match Draft.addValue path name v fields with
        | none => none
        | some fields =>
          match skipWide rest with
          | '}' :: rest => some (fields, rest)
          | ',' :: rest =>
            match skipWide rest with
            | '}' :: rest => some (fields, rest)
            | rest => readFields fuel depth fields rest
          | _ => none
    | _ => none

end

/-- How deep values may be nested. -/
def maxDepth : Nat := 80

/-- The value at the front of a text. -/
def value? (s : List Char) : Option (Toml × List Char) :=
  readValue (2 * s.length + 2) maxDepth s

/-- A document so far: all fields, and the path of the table that fields go to. -/
structure Page where
  fields : Draft.Fields
  current : List String

/-- Read a header behind its opening brackets. -/
def readHeader (close : List Char)
    (begin : List String → String → Draft.Fields → Option Draft.Fields) (page : Page)
    (s : List Char) : Option (Page × List Char) := do
  let (path, name, rest) ← key? s
  guard (close.isPrefixOf rest)
  let fields ← begin path name page.fields
  return (⟨fields, path ++ [name]⟩, rest.drop close.length)

/-- Read a field. -/
def readField (page : Page) (s : List Char) : Option (Page × List Char) := do
  let (path, name, rest) ← key? s
  let rest ← Time.expect '=' rest
  let (v, rest) ← value? (skipBlanks rest)
  let fields ← Draft.reach false (Draft.addValue path name v) page.current page.fields
  return (⟨fields, page.current⟩, rest)

/-- Read a line, and tell what follows it. -/
def readLine (page : Page) (s : List Char) : Option (Page × List Char) := do
  let (page, rest) ← match skipBlanks s with
    | '[' :: '[' :: rest => readHeader [']', ']'] Draft.beginItem page rest
    | '[' :: rest => readHeader [']'] Draft.beginTable page rest
    | s =>
      match endLine? s with
      | some _ => some (page, s)
      | none => readField page s
  return (page, ← endLine? rest)

/-- Read lines to the end. -/
def readLines : Nat → Page → List Char → Option Page
  | 0, page, s => if s.isEmpty then some page else none
  | fuel + 1, page, s =>
    if s.isEmpty then some page
    else do
      let (page, rest) ← readLine page s
      readLines fuel page rest

/-- The fields of a document; a byte order mark in front does not count. -/
def parse? (s : List Char) : Option (List (String × Toml)) :=
  let s := match s with
    | '\uFEFF' :: rest => rest
    | _ => s
  (readLines (s.length + 1) ⟨[], []⟩ s).map fun page => Draft.finishFields page.fields

end Renumber.Toml
