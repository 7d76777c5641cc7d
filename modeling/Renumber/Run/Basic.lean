import Renumber.Run.Policy
import Renumber.Run.Report

/-!
# Running commands

Commands run in order, each under a policy for failures. A run ends early when the
policy aborts or when it is cancelled; the commands that are left are then skipped. The
account says of every command whether it ran, failed or was skipped.

What it means to run a command, to write a line to the log and to look for a
cancellation is left open here, so that the rules of a run hold whatever commands do.
-/

namespace Renumber

/-- How commands run on `ω`. -/
structure Machine (ω : Type) where
  execute : Command → ω → Except Failure Unit × ω
  /-- Write a line to the log of the run. -/
  note : String → ω → ω
  /-- Look whether the run is cancelled. -/
  stopped : ω → Bool × ω

namespace Run

variable {σ ω : Type}

/-- The outcome of trying a command until it runs or is given up. -/
inductive Attempt where
  | ran
  | givenUp (abort : Bool) (failure : Failure)

/-- Try a command until it runs or the policy gives it up. -/
def attempt (m : Machine ω) (p : Policy σ ω) (step : Command) (s : σ) (w : ω) : Attempt × σ × ω :=
  let w := m.note step.description w
  match m.execute step w with
  | (.ok (), w) => (.ran, s, w)
  | (.error failure, w) =>
    let w := m.note ("Failed: " ++ failure.detailed) w
    match _h : p.decide step failure s w with
    | (.retry, s', w) => attempt m p step s' (m.note "Retrying" w)
    | (.ignore, s', w) => (.givenUp false failure, s', w)
    | (.abort, s', w) => (.givenUp true failure, s', w)
termination_by p.patience s
decreasing_by
  have := p.retry_lt step failure s _ (congrArg Prod.fst _h)
  rwa [_h] at this

/-- The state of a run: the policy's, the workplace, and the account so far. -/
structure State (σ ω : Type) where
  answers : σ
  place : ω
  report : Report

/-- The commands that ran and those that did not, each in the order given. -/
structure Parts where
  done : List Command := []
  left : List Command := []
  deriving DecidableEq, Repr

/-- Run commands, or their inverses, in order. -/
def steps (m : Machine ω) (p : Policy σ ω) (inverse : Bool) :
    List Command → State σ ω → Parts × State σ ω
  | [], r => ({}, r)
  | c :: rest, r =>
    match m.stopped r.place with
    | (true, w) =>
      ({ left := c :: rest },
        { r with
          place := m.note "Cancelled, discarding remaining commands" w
          report :=
            { r.report with
              cancelled := true
              skipped := r.report.skipped + (1 + rest.length) } })
    | (false, w) =>
      let step := if inverse then c.inverse else c
      match attempt m p step r.answers w with
      | (.ran, s, w) =>
        let report := { r.report with executed := r.report.executed + 1 }
        let (parts, r) := steps m p inverse rest ⟨s, w, report⟩
        ({ parts with done := c :: parts.done }, r)
      | (.givenUp abort failure, s, w) =>
        let report :=
          { r.report with
            failed := r.report.failed ++ [⟨step.description, failure.detailed⟩] }
        if abort then
          ({ left := c :: rest },
            ⟨s, m.note "Aborted, discarding remaining commands" w,
              { report with aborted := true, skipped := report.skipped + rest.length }⟩)
        else
          let (parts, r) := steps m p inverse rest ⟨s, w, report⟩
          ({ parts with left := c :: parts.left }, r)

/-- Run commands, or their inverses, and count them in. -/
def commands (m : Machine ω) (p : Policy σ ω) (inverse : Bool) (cs : List Command)
    (r : State σ ω) : Parts × State σ ω :=
  steps m p inverse cs
    { r with report := { r.report with total := r.report.total + cs.length } }

end Run

end Renumber
