import Renumber.Prompt
import Renumber.Proofs.Run.Turns

/-!
# Runs that ask the user

What the user is asked is answered by the lines of the input that are answers, in order, and by
an end to the run when none is left. Every answer to try again uses one up, so the turns of a
run come to an end whatever fails, with at most one attempt for each command and one for each
answer to try again.
-/

namespace Renumber

/-- The decisions of a policy that is asked about one failure after the other. -/
def Policy.decisions {σ ω : Type} (p : Policy σ ω) : List (Command × Failure × ω) → σ → List Decision
  | [], _ => []
  | (c, failure, w) :: rest, s =>
    (p.decide c failure s w).1 :: p.decisions rest (p.decide c failure s w).2.1

namespace Prompt

variable {ω : Type} {lines : Lines} {d : Decision}

/-! ## Answers -/

/-- The words for a decision. -/
def words : Decision → List String
  | .retry => ["r", "retry"]
  | .ignore => ["i", "ignore"]
  | .abort => ["a", "abort"]

theorem decision?_eq_some_iff {line : List Char} :
    decision? line = some d ↔ String.ofList (Text.lower (Text.trim line)) ∈ words d := by
  rw [decision?]
  generalize String.ofList (Text.lower (Text.trim line)) = word
  simp only [Bool.or_eq_true, beq_iff_eq]
  split
  · next retry => obtain rfl | rfl := retry <;> cases d <;> decide
  · split
    · next ignore => obtain rfl | rfl := ignore <;> cases d <;> decide
    · split
      · next abort => obtain rfl | rfl := abort <;> cases d <;> decide
      · cases d <;> simp_all [words]

/-- The decisions that the lines stand for, without the lines that stand for none. -/
def answers (lines : Lines) : List Decision :=
  lines.filterMap decision?

/-- The answers to try again. -/
def retries (lines : Lines) : Nat :=
  (answers lines).count .retry

/-- A question takes the next answer, or ends the run where there is none. -/
theorem ask_cases (lines : Lines) :
    (answers lines = [] ∧ ask lines = (.abort, [])) ∨
      ∃ d rest, ask lines = (d, rest) ∧ answers lines = d :: answers rest := by
  induction lines with
  | nil => exact .inl ⟨rfl, rfl⟩
  | cons line lines ih =>
      rw [ask, answers, List.filterMap_cons]
      cases decision? line with
      | none => exact ih
      | some d => exact .inr ⟨d, lines, rfl, rfl⟩

/-- Questions take no answers but their own, and an answer to try again only once. -/
theorem retries_ask_le (lines : Lines) :
    retries (ask lines).2 + (if (ask lines).1 = .retry then 1 else 0) ≤ retries lines := by
  obtain ⟨-, asked⟩ | ⟨d, rest, asked, split⟩ := ask_cases lines
  · rw [asked]
    exact Nat.zero_le _
  · rw [asked, retries, retries, split, List.count_cons]
    simp

/-! ## Policies that ask -/

/-- The policy that asks, for any place that can be told what failed. -/
def asking (tell : String → ω → ω) : Policy Lines ω where
  decide c failure lines w := ((ask lines).1, (ask lines).2, tell (announcement c failure) w)
  patience := List.length
  retry_lt _ _ _ _ h := length_ask_lt h

variable (tell : String → ω → ω)

theorem policy_eq_asking : policy = asking fun text w => ((World.notify text).run w).2 := rfl

theorem onWorkspace_eq_asking : policy.onWorkspace =
    asking fun text ws => { ws with world := ((World.notify text).run ws.world).2 } := rfl

/-- However often it is asked, the answers are given in order, and after them it aborts. -/
theorem decisions_asking (asked : List (Command × Failure × ω)) (lines : Lines) :
    (asking tell).decisions asked lines =
      (answers lines ++ List.replicate asked.length Decision.abort).take asked.length := by
  induction asked generalizing lines with
  | nil => rfl
  | cons first asked ih =>
      obtain ⟨c, failure, w⟩ := first
      rw [Policy.decisions, ih]
      obtain ⟨none, out⟩ | ⟨d, rest, out, split⟩ := ask_cases lines
      · rw [none, List.length_cons, List.replicate_succ]
        simp only [asking, out]
        rfl
      · have spare :
            (answers rest ++ List.replicate (asked.length + 1) Decision.abort).take asked.length =
              (answers rest ++ List.replicate asked.length Decision.abort).take asked.length := by
          simp only [List.take_append, List.take_replicate]
          congr 2
          omega
        rw [split, List.length_cons, List.cons_append, List.take_succ_cons, spare]
        simp only [asking, out]

/-- The third of these lines is no answer. -/
example : answers (linesOf "r\nIgnore\nwhat\na\n".toList) = [.retry, .ignore, .abort] := by
  decide

/-! ## The end of a run -/

open Run

/-- The attempts that may still come. -/
def budget : Turn Lines ω → Nat
  | .choosing left lines _ => left.length + retries lines
  | .trying _ left lines _ => left.length + 1 + retries lines
  | .ended _ _ => 0

/-- The turns that may still come. -/
def horizon : Turn Lines ω → Nat
  | .choosing left lines _ => 2 * (left.length + retries lines) + 1
  | .trying _ left lines _ => 2 * (left.length + 1 + retries lines)
  | .ended _ _ => 0

variable {tell} {m : Machine ω} {inverse : Bool} {t u : Turn Lines ω} {n k : Nat}

/-- A turn uses up what it takes. -/
theorem budget_next (next : t.next? m (asking tell).decide inverse = some u) :
    t.attempts + budget u ≤ budget t ∧ horizon u < horizon t := by
  cases t with
  | ended lines w => cases next
  | choosing left lines w =>
      cases left with
      | nil =>
          obtain rfl := Option.some.inj next
          exact ⟨Nat.zero_le _, Nat.succ_pos _⟩
      | cons c left =>
          rcases looked : m.stopped w with ⟨_ | _, w'⟩
          · simp only [Turn.next?, looked, Option.some.injEq] at next
            subst next
            simp only [Turn.attempts, budget, horizon, List.length_cons]
            omega
          · simp only [Turn.next?, looked, Option.some.injEq] at next
            subst next
            exact ⟨Nat.zero_le _, Nat.succ_pos _⟩
  | trying step left lines w =>
      have fewer := retries_ask_le lines
      rcases executed : m.execute step (m.note step.description w) with ⟨failure | ⟨⟩, w'⟩
      · rcases asked : ask lines with ⟨_ | _ | _, rest⟩
        all_goals
          rw [asked] at fewer
          simp only [Turn.next?, executed, asking, asked, Option.some.injEq] at next
          subst next
          simp only [Turn.attempts, budget, horizon, reduceCtorEq, if_true, if_false] at fewer ⊢
          omega
      · simp only [Turn.next?, executed, Option.some.injEq] at next
        subst next
        simp only [Turn.attempts, budget, horizon]
        omega

/-- Turns together use up what they take. -/
theorem budget_turns (turns : Turns m (asking tell).decide inverse t n k u) :
    k + budget u ≤ budget t ∧ n + horizon u ≤ horizon t := by
  induction turns with
  | here t => omega
  | on next _ ih =>
      have := budget_next next
      omega

/-- A run that asks about its failures ends, whatever fails: questions are answered by the lines
that are answers, and attempts are bounded by the commands and the answers to try again. -/
theorem prompted_run_ends {ω : Type} (tell : String → ω → ω) (input : List Char) (m : Machine ω)
    (inverse : Bool) (cs : List Command) (w : ω) (report : Report) :
    let lines := linesOf input
    let again := (lines.filterMap decision?).count .retry
    let start : Run.State Lines ω := ⟨lines, w, report⟩
    let finish := (commands m (asking tell) inverse cs start).2
    (policy = asking fun text w => ((World.notify text).run w).2) ∧
      (policy.onWorkspace = asking fun text ws =>
        { ws with world := ((World.notify text).run ws.world).2 }) ∧
      (∀ line d, decision? line = some d ↔
        String.ofList (Text.lower (Text.trim line)) ∈ words d) ∧
      (∀ asked : List (Command × Failure × ω), (asking tell).decisions asked lines =
        (lines.filterMap decision? ++ List.replicate asked.length Decision.abort).take
          asked.length) ∧
      (∃ n, Turns m (asking tell).decide inverse (.choosing cs lines w) n
        (attempted m (asking tell) inverse cs start).length (.ended finish.answers finish.place)) ∧
      (∀ n k t, Turns m (asking tell).decide inverse (.choosing cs lines w) n k t →
        n ≤ 2 * (cs.length + again) + 1 ∧ k ≤ cs.length + again) ∧
      (attempted m (asking tell) inverse cs start).length ≤ cs.length + again := by
  intro lines again start finish
  have bounded : ∀ n k t, Turns m (asking tell).decide inverse (.choosing cs lines w) n k t →
      n ≤ 2 * (cs.length + again) + 1 ∧ k ≤ cs.length + again := by
    intro n k t turns
    have used := budget_turns turns
    rw [show budget (.choosing cs lines w) = cs.length + again from rfl,
      show horizon (.choosing cs lines w) = 2 * (cs.length + again) + 1 from rfl] at used
    omega
  obtain ⟨n, turns⟩ := turns_commands m (asking tell) inverse cs start
  exact ⟨policy_eq_asking, onWorkspace_eq_asking, fun line d => decision?_eq_some_iff,
    fun asked => decisions_asking tell asked lines, ⟨n, turns⟩, bounded, (bounded _ _ _ turns).2⟩

end Prompt

end Renumber
