import Renumber.Plan.Basic

/-!
# Numbering files

A numbering gives every source a destination, with a counter that goes up by one per
source. A destination that is taken, by an earlier source of the batch or by a file
outside of it, is tried again with the decorators `_(2)`, `_(3)` and so on. When they
run out the whole batch fails.

Whether something is on the disk is asked of `present`.
-/

namespace Renumber

open Renumber.Pattern (Spec Shortfall maxCounter)

/-- The choices of a numbering. -/
structure NumberingOptions where
  /-- The counter of the first source. -/
  start : Nat := 1
  /-- Keep destinations apart. -/
  unique : Bool := true
  /-- Keep clear of files outside the batch. -/
  checkExisting : Bool := true
  /-- The folder of all destinations; none for the sources' own. -/
  folder : Option Path := none
  /-- The greatest decorator. -/
  maxDuplicates : Nat := 200
  caseInsensitive : Bool := false
  deriving DecidableEq, Repr

/-- A pattern and the choices that go with it. -/
structure Numbering where
  spec : Spec
  options : NumberingOptions
  usable : spec.isUsable = true

/-- The destinations of a batch, the counter for the next one, and what went short. -/
structure Numbered where
  pairs : PathPairs
  nextCounter : Nat
  warnings : List (Path × Shortfall)

/-- The counter after another one; the greatest stays. -/
def nextCounter (n : Nat) : Nat :=
  min (n + 1) maxCounter

namespace Numbering

/-- The numbering of a usable pattern. -/
def make (spec : Spec) (options : NumberingOptions) : Except Failure Numbering :=
  if h : spec.isUsable = true then .ok ⟨spec, options, h⟩
  else .error (.unusablePattern (String.ofList spec.pattern))

/-- The destination of a source, decorated or not. -/
def candidate (g : Numbering) (source : Path) (counter : Nat) (duplicate : Option Nat) : Path :=
  (g.spec.formatPath source counter duplicate g.options.folder).1

/-- A key under this numbering's rule for letter case. -/
def key (g : Numbering) (p : Path) : PathKey :=
  p.key g.options.caseInsensitive

/-- A file outside the batch stands at the path. -/
def isForeign (g : Numbering) (present : Path → Bool) (sourceKeys : List PathKey) (p : Path) :
    Bool :=
  g.options.checkExisting && !sourceKeys.contains (g.key p) && present p

/-- The path is taken within the batch or by a file outside of it. -/
def collides (g : Numbering) (present : Path → Bool) (sourceKeys placed : List PathKey)
    (p : Path) : Bool :=
  placed.contains (g.key p) || g.isForeign present sourceKeys p

/-- The first free candidate with a decorator, the decorators being `n` and as many more
as there are tries. -/
def firstFree? (free : Nat → Option Path) : Nat → Nat → Option Path
  | 0, _ => none
  | tries + 1, n => free n <|> firstFree? free tries (n + 1)

/-- The destination of one source: the first candidate that is free. The decorators are
tried from two on. -/
def placeOne (g : Numbering) (present : Path → Bool) (sourceKeys placed : List PathKey)
    (source : Path) (counter : Nat) : Except Failure Path :=
  let free := fun duplicate =>
    let p := g.candidate source counter duplicate
    if g.collides present sourceKeys placed p then none else some p
  let first := g.candidate source counter none
  if !g.options.unique || (free none).isSome then .ok first
  else
    match firstFree? (free ∘ some) (g.options.maxDuplicates - 1) 2 with
    | some p => .ok p
    | none => .error (.noUniqueName first g.options.maxDuplicates)

/-- Number sources in order, from a counter on and given the keys already placed. -/
def numberFrom (g : Numbering) (present : Path → Bool) (sourceKeys : List PathKey) :
    List PathKey → Nat → Numbered → List Path → Except Failure Numbered
  | _, counter, out, [] => .ok { out with nextCounter := counter }
  | placed, counter, out, source :: rest => do
    let shortfalls := (g.spec.formatPath source counter none g.options.folder).2
    let target ← g.placeOne present sourceKeys placed source counter
    let out : Numbered :=
      ⟨out.pairs.insert source target, counter, out.warnings ++ shortfalls.map (source, ·)⟩
    numberFrom g present sourceKeys (g.key target :: placed) (nextCounter counter) out rest

/-- Number a batch of sources. -/
def number (g : Numbering) (present : Path → Bool) (sources : List Path) :
    Except Failure Numbered :=
  g.numberFrom present (sources.map g.key) [] g.options.start ⟨∅, g.options.start, []⟩ sources

/-- The plain names of a batch from a counter on are distinct and clear of files
outside the batch. -/
def isClear (g : Numbering) (present : Path → Bool) (sourceKeys : List PathKey) :
    List PathKey → Nat → List Path → Bool
  | _, _, [] => true
  | placed, counter, source :: rest =>
    let target := g.candidate source counter none
    !g.collides present sourceKeys placed target &&
      isClear g present sourceKeys (g.key target :: placed) (nextCounter counter) rest

/-- The greatest starting counter that is tried. -/
def maxStart : Nat := 99999

/-- The first of some starting counters, from one on, whose batch is clear. -/
def firstClear? (g : Numbering) (present : Path → Bool) (sources : List Path) :
    Nat → Nat → Option Nat
  | 0, _ => none
  | tries + 1, start =>
    if g.isClear present (sources.map g.key) [] start sources then some start
    else firstClear? g present sources tries (start + 1)

/-- The least starting counter whose batch needs no decorator. -/
def nextFree (g : Numbering) (present : Path → Bool) (sources : List Path) : Except Failure Nat :=
  let start := g.options.start
  match g.firstClear? present sources (maxStart + 1 - start) start with
  | some n => .ok n
  | none => .error (.noFreeCounter start maxStart)

end Numbering

end Renumber
