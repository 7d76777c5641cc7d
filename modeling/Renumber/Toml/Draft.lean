import Renumber.Toml.Basic

/-!
# Tables under construction

While a document is read its tables remember how they came about, because that decides
what may still be added. A table with a header of its own is complete except for tables
below it; one that only lies on the way to another may still get its header; one made
by a dotted key may only be filled by dotted keys. Values, among them lists and tables
written in braces, are closed.
-/

namespace Renumber.Toml

/-- How a table came about. -/
inductive Origin where
  /-- By its own header. -/
  | header
  /-- On the way to the table of a header. -/
  | passed
  /-- By a dotted key. -/
  | dotted
  deriving DecidableEq, Repr

/-- A part of an unfinished document. -/
inductive Draft where
  | value (v : Toml)
  | table (origin : Origin) (fields : List (String × Draft))
  /-- The tables of one header in double brackets, first one first. -/
  | tables (items : List (List (String × Draft)))

/-- The fields of an unfinished table. -/
abbrev Draft.Fields := List (String × Draft)

namespace Draft

/-- Change a field, or add it. -/
def put (name : String) (d : Draft) : Fields → Fields
  | [] => [(name, d)]
  | (key, old) :: rest => if key = name then (name, d) :: rest else (key, old) :: put name d rest

/-- Change the fields of the table at the end of a path. Missing tables on the way are
made; of tables under one header the last one counts. Dotted keys do not reach into
tables with a header. -/
def reach (dotted : Bool) (change : Fields → Option Fields) : List String → Fields → Option Fields
  | [], fields => change fields
  | name :: path, fields =>
    match fields.lookup name with
    | none => do
      let origin : Origin := if dotted then .dotted else .passed
      return put name (.table origin (← reach dotted change path [])) fields
    | some (.table origin below) =>
      if dotted && origin == .header then none
      else do return put name (.table origin (← reach dotted change path below)) fields
    | some (.tables items) =>
      if dotted then none
      else do
        let changed ← reach dotted change path (items.getLast?.getD [])
        return put name (.tables (items.dropLast ++ [changed])) fields
    | some (.value _) => none

/-- Add a value under a dotted key. -/
def addValue (path : List String) (name : String) (v : Toml) : Fields → Option Fields :=
  reach true (fun fields =>
    if (fields.lookup name).isSome then none else some (put name (.value v) fields)) path

/-- Begin the table of a header. -/
def beginTable (path : List String) (name : String) : Fields → Option Fields :=
  reach false (fun fields =>
    match fields.lookup name with
    | none => some (put name (.table .header []) fields)
    | some (.table .passed below) => some (put name (.table .header below) fields)
    | _ => none) path

/-- Begin another table of a header in double brackets. -/
def beginItem (path : List String) (name : String) : Fields → Option Fields :=
  reach false (fun fields =>
    match fields.lookup name with
    | none => some (put name (.tables [[]]) fields)
    | some (.tables items) => some (put name (.tables (items ++ [[]])) fields)
    | _ => none) path

mutual

/-- The finished value. -/
def finish : Draft → Toml
  | .value v => v
  | .table _ fields => .table (finishFields fields)
  | .tables items => .list (finishItems items)

/-- The finished fields. -/
def finishFields : Fields → List (String × Toml)
  | [] => []
  | (name, d) :: rest => (name, d.finish) :: finishFields rest

/-- The finished tables of a list. -/
def finishItems : List Fields → List Toml
  | [] => []
  | fields :: rest => .table (finishFields fields) :: finishItems rest

end

end Draft

end Renumber.Toml
