import Renumber.Run.Policy
import Renumber.Text.Blank
import Renumber.Text.Case

/-!
# Asking the user

A policy that asks what to do about each failure. It reads one line after the other
until one is an answer; when no line is left it aborts. Every question uses up at least
one line, or none is left, so the questions come to an end.
-/

namespace Renumber.Prompt

/-- The lines that are still to be read. -/
abbrev Lines := List (List Char)

/-- The lines of an input; the last one need not be ended. -/
def linesOf (input : List Char) : Lines :=
  Text.linesOf '\n' input

/-- The decision that a line stands for, whatever the case of its letters and the blanks
around it. -/
def decision? (line : List Char) : Option Decision :=
  let word := String.ofList (Text.lower (Text.trim line))
  if word == "r" || word == "retry" then some .retry
  else if word == "i" || word == "ignore" then some .ignore
  else if word == "a" || word == "abort" then some .abort
  else none

/-- Read lines up to an answer. -/
def ask : Lines → Decision × Lines
  | [] => (.abort, [])
  | line :: rest =>
    match decision? line with
    | some d => (d, rest)
    | none => ask rest

theorem length_ask_le (lines : Lines) : (ask lines).2.length ≤ lines.length := by
  induction lines with
  | nil => simp [ask]
  | cons line rest ih =>
    simp only [ask]
    split
    · simp
    · exact Nat.le_succ_of_le ih

/-- An answer to retry uses up a line. -/
theorem length_ask_lt {lines : Lines} (h : (ask lines).1 = .retry) :
    (ask lines).2.length < lines.length := by
  cases lines with
  | nil => simp [ask] at h
  | cons line rest =>
    simp only [ask] at h ⊢
    split
    · simp
    · exact Nat.lt_succ_of_le (length_ask_le rest)

/-- What is said about a failed command. -/
def announcement (c : Command) (failure : Failure) : String :=
  "\n" ++ c.description ++ " failed: " ++ failure.detailed ++
    "\n[r]etry, [i]gnore, [a]bort? "

/-- Ask about every failure. -/
def policy : Policy Lines World where
  decide c failure lines w :=
    let (d, rest) := ask lines
    (d, rest, ((World.notify (announcement c failure)).run w).2)
  patience := List.length
  retry_lt _ _ _ _ h := length_ask_lt h

end Renumber.Prompt
