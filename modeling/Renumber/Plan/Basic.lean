import Renumber.Failure
import Renumber.Path.Map
import Renumber.Pattern.Spec

/-!
# Planning renames

A plan is an order of moves that carries out a set of renames. Destinations that are
still occupied by another file of the batch are reached in two phases: the file first
moves aside under an intermediate name, and goes on to its destination when all first
moves are done. So a chain is walked directly where its order allows it, and a swap or
a longer cycle always works.

Whether something is on the disk is asked of `present`; a path counts as occupied by
its key, so that the rules are the same where letter case does not count.
-/

namespace Renumber

/-- Destinations by source. -/
abbrev PathPairs := PathMap Path

/-- The part of a move in a plan. -/
inductive StepPhase where
  /-- Straight to the destination. -/
  | direct
  /-- Aside, to an intermediate name. -/
  | staged
  /-- From the intermediate name to the destination. -/
  | delayed
  deriving DecidableEq, Repr

/-- One move of a plan. -/
structure RenameStep where
  source : Path
  target : Path
  phase : StepPhase
  deriving DecidableEq, Repr

/-- The moves in order, or the conflicts that forbid them. -/
structure RenamePlan where
  steps : List RenameStep
  conflicts : List Conflict
  caseInsensitive : Bool
  deriving DecidableEq, Repr

/-- Some file has to step aside. -/
def RenamePlan.requiresStaging (plan : RenamePlan) : Bool :=
  plan.steps.any (·.phase = .staged)

namespace Plan

/-- The pairs whose destination is another path than the source. -/
def changing (pairs : PathPairs) : List (Path × Path) :=
  pairs.entries.filter fun (source, target) => !source.same target

/-- The first source whose key an earlier source has. -/
def repeatedSource? (ci : Bool) (seen : List PathKey) : List (Path × Path) → Option Path
  | [] => none
  | (source, _) :: rest =>
    if seen.contains (source.key ci) then some source
    else repeatedSource? ci (source.key ci :: seen) rest

/-- The sources of each destination, by the destination's key and in its order; the
destination is spelled as by its first source. -/
def byTarget (ci : Bool) (pairs : List (Path × Path)) : PathMap (Path × List Path) :=
  pairs.foldl (fun groups (source, target) =>
    groups.insertWith (fun old new => (old.1, old.2 ++ new.2)) (target.folded ci)
      (target, [source])) ∅

/-- The conflict at a destination, if there is one. -/
def conflictAt? (present : Path → Bool) (ci : Bool) (sourceKeys : List PathKey)
    (target : Path) (sources : List Path) : Option Conflict :=
  if sources.length > 1 then some ⟨sources, target, .shared⟩
  else if isReserved (Pattern.Spec.nameText target) then some ⟨sources, target, .reserved⟩
  else if !sourceKeys.contains (target.key ci) && present target then
    some ⟨sources, target, .taken⟩
  else none

/-- All conflicts, in the order of the destinations' keys. -/
def conflicts (present : Path → Bool) (ci : Bool) (sourceKeys : List PathKey)
    (pairs : List (Path × Path)) : List Conflict :=
  (byTarget ci pairs).entries.filterMap fun (_, target, sources) =>
    conflictAt? present ci sourceKeys target sources

/-- Intermediate names have a counter in brackets behind the stem. -/
def intermediateSpec : Pattern.Spec :=
  .ofParts ['*', '[', '#', ']'] []

/-- How many intermediate names are tried. -/
def maxIntermediates : Nat := 200

/-- The intermediate name of a number for a file on its way to a destination. -/
def intermediate (target : Path) (n : Nat) : Path :=
  let name := (intermediateSpec.formatName (Pattern.Spec.nameText target) n none).text
  (target.parent?.getD ⟨[]⟩).join ⟨Text.encode name⟩

/-- The first intermediate name that nothing in the plan or on the disk has. -/
def freeIntermediate? (present : Path → Bool) (ci : Bool) (planned : List PathKey)
    (target : Path) : Option Path :=
  ((List.range maxIntermediates).map fun i => intermediate target (i + 1)).find? fun p =>
    !planned.contains (p.key ci) && !present p

/-- What is known while steps are chosen: the keys that the plan uses, the keys of
sources that have left their place, and the keys that steps have filled. -/
structure Occupancy where
  planned : List PathKey
  vacated : List PathKey
  filled : List PathKey

/-- Another file of the batch is at the destination when this step runs. -/
def Occupancy.blocks (o : Occupancy) (sourceKeys : List PathKey) (source target : PathKey) : Bool :=
  target != source &&
    (o.filled.contains target || (sourceKeys.contains target && !o.vacated.contains target))

/-- The first-phase steps of the pairs in order, and the delayed steps. -/
def chooseSteps (present : Path → Bool) (ci : Bool) (sourceKeys : List PathKey) :
    Occupancy → List (Path × Path) → Except Failure (List RenameStep × List RenameStep)
  | _, [] => .ok ([], [])
  | o, (source, target) :: rest =>
    let sourceKey := source.key ci
    let targetKey := target.key ci
    if o.blocks sourceKeys sourceKey targetKey then
      match freeIntermediate? present ci o.planned target with
      | none => .error (.noIntermediate target)
      | some aside =>
        let o : Occupancy :=
          ⟨aside.key ci :: o.planned, sourceKey :: o.vacated, aside.key ci :: o.filled⟩
        (chooseSteps present ci sourceKeys o rest).map fun (steps, delayed) =>
          (⟨source, aside, .staged⟩ :: steps, ⟨aside, target, .delayed⟩ :: delayed)
    else
      let o : Occupancy := ⟨o.planned, sourceKey :: o.vacated, targetKey :: o.filled⟩
      (chooseSteps present ci sourceKeys o rest).map fun (steps, delayed) =>
        (⟨source, target, .direct⟩ :: steps, delayed)

/-- Plan renames; conflicts are part of the answer and leave no steps. -/
def withConflicts (present : Path → Bool) (ci : Bool) (pairs : PathPairs) :
    Except Failure RenamePlan :=
  let pairs := changing pairs
  match repeatedSource? ci [] pairs with
  | some source => .error (.notDistinct source)
  | none =>
    let sourceKeys := pairs.map fun (source, _) => source.key ci
    match conflicts present ci sourceKeys pairs with
    | [] =>
      let targetKeys := pairs.map fun (_, target) => target.key ci
      (chooseSteps present ci sourceKeys ⟨sourceKeys ++ targetKeys, [], []⟩ pairs).map
        fun (steps, delayed) => ⟨steps ++ delayed, [], ci⟩
    | found => .ok ⟨[], found, ci⟩

/-- Plan renames; conflicts are a failure. -/
def strict (present : Path → Bool) (ci : Bool) (pairs : PathPairs) : Except Failure RenamePlan := do
  let plan ← withConflicts present ci pairs
  if plan.conflicts.isEmpty then return plan else throw (.conflicts plan.conflicts)

/-- No two sources and no two destinations share a key. -/
def isDistinct (ci : Bool) (pairs : PathPairs) : Bool :=
  decide ((pairs.entries.map fun (source, _) => source.key ci).Nodup) &&
    decide ((pairs.entries.map fun (_, target) => target.key ci).Nodup)

end Plan

end Renumber
