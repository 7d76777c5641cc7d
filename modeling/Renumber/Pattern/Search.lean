import Std.Data.TreeMap
import Renumber.Pattern.Token

/-!
# Matching a text against tokens

A text matches when it can be cut into stretches that fit the tokens one by one. The
search tries the shortest stretch for `*` and the longest run of digits for a counter
first; the counter it finds is that of the first cut. `search` is the plain search;
`searchOnce` answers the same but solves every pair of a token and a place only once.
-/

namespace Renumber.Pattern

/-- Nothing when the text does not match; otherwise the counter, if one was crossed. -/
abbrev Outcome := Option (Option Nat)

/-- A text and all that is left of it after dropping characters in front. -/
def suffixes : List Char → List (List Char)
  | [] => [[]]
  | c :: rest => (c :: rest) :: suffixes rest

/-- The plain search. -/
def search : List Token → List Char → Outcome
  | [], s => if s.isEmpty then some none else none
  | .literal c :: rest, s =>
    match s with
    | a :: s => if a = c then search rest s else none
    | [] => none
  | .anyOne :: rest, s =>
    match s with
    | _ :: s => search rest s
    | [] => none
  | .anyRest :: rest, s => (suffixes s).findSome? (search rest)
  | .counter style :: rest, s =>
    (style.readings s).findSome? fun (value, used) =>
      (search rest (s.drop used)).map fun _ => some value

/-- Places are ordered by the tokens and then by the characters that are left. -/
def comparePlaces : Nat × Nat → Nat × Nat → Ordering :=
  compareLex (compareOn Prod.fst) (compareOn Prod.snd)

/-- Outcomes that are known, by how many tokens and characters are left. -/
abbrev Known := Std.TreeMap (Nat × Nat) Outcome comparePlaces

/-- Look an outcome up, or find it and write it down. -/
def once (tokens chars : Nat) (find : StateM Known Outcome) : StateM Known Outcome := do
  match (← get)[(tokens, chars)]? with
  | some known => return known
  | none =>
    let outcome ← find
    modify fun known => known.insert (tokens, chars) outcome
    return outcome

/-- The first outcome that is a match. -/
def firstMatch {α : Type} (find : α → StateM Known Outcome) : List α → StateM Known Outcome
  | [] => return none
  | a :: rest => do
    match ← find a with
    | some counter => return some counter
    | none => firstMatch find rest

/-- The search that solves every place once. -/
def searchOnce : List Token → List Char → StateM Known Outcome
  | [], s => once 0 s.length (return if s.isEmpty then some none else none)
  | .literal c :: rest, s => once (rest.length + 1) s.length <|
    match s with
    | a :: s => if a = c then searchOnce rest s else return none
    | [] => return none
  | .anyOne :: rest, s => once (rest.length + 1) s.length <|
    match s with
    | _ :: s => searchOnce rest s
    | [] => return none
  | .anyRest :: rest, s => once (rest.length + 1) s.length <|
    firstMatch (searchOnce rest) (suffixes s)
  | .counter style :: rest, s => once (rest.length + 1) s.length <|
    firstMatch (fun (value, used) => do
      return (← searchOnce rest (s.drop used)).map fun _ => some value) (style.readings s)

/-- Match a text against tokens. -/
def matchTokens (tokens : List Token) (s : List Char) : Outcome :=
  ((searchOnce tokens s).run ∅).1

end Renumber.Pattern
