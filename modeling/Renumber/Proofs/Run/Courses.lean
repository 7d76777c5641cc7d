import Mathlib.Data.List.Basic
import Renumber.Proofs.Run.Refine
import Renumber.Proofs.Run.Tally

/-!
# What becomes of each command

A command of a run has a course: the attempts at it, none if the run ended before its
turn. Whether the last attempt succeeds decides on which side the command ends up. The
courses one after the other are all that the run asks its machine to execute, which a
machine that keeps a record shows.
-/

namespace Renumber

variable {σ ω : Type}

/-! ## Commands in two parts -/

namespace Run.Parts

/-- Commands by a mark on each: the marked ones are done. -/
def sift (marks : List Bool) (cs : List Command) : Parts where
  done := ((cs.zip marks).filter Prod.snd).map Prod.fst
  left := ((cs.zip marks).filter fun t => !t.2).map Prod.fst

/-- The parts are some commands without loss or repetition, each part in their order. -/
structure Splits (parts : Parts) (cs : List Command) : Prop where
  done : parts.done.Sublist cs
  left : parts.left.Sublist cs
  all : (parts.done ++ parts.left).Perm cs

theorem Splits.length {parts : Parts} {cs : List Command} (splits : parts.Splits cs) :
    parts.done.length + parts.left.length = cs.length := by
  rw [← List.length_append, splits.all.length_eq]

theorem splits_sift {marks : List Bool} {cs : List Command} (same : marks.length = cs.length) :
    (sift marks cs).Splits cs := by
  have commands : (cs.zip marks).map Prod.fst = cs := List.map_fst_zip (Nat.le_of_eq same.symm)
  have part : ∀ test : Command × Bool → Bool, (((cs.zip marks).filter test).map Prod.fst).Sublist cs := by
    intro test
    have fewer := (List.filter_sublist (p := test) (l := cs.zip marks)).map Prod.fst
    rwa [commands] at fewer
  refine ⟨part _, part _, ?_⟩
  have all := (List.filter_append_perm Prod.snd (cs.zip marks)).map Prod.fst
  rwa [List.map_append, commands] at all

theorem sift_none (cs : List Command) : sift (List.replicate cs.length false) cs = ⟨[], cs⟩ := by
  induction cs with
  | nil => rfl
  | cons c rest ih =>
      obtain ⟨done, left⟩ := Parts.mk.inj ih
      exact congrArg₂ Parts.mk done (congrArg (c :: ·) left)

theorem zip_reverse {α : Type} {cs : List Command} {each : List α} (same : cs.length = each.length) :
    cs.reverse.zip each.reverse = (cs.zip each).reverse :=
  (List.reverse_zipWith same).symm

/-- Marks in the opposite order part the commands in the opposite order. -/
theorem sift_reverse {marks : List Bool} {cs : List Command} (same : marks.length = cs.length) :
    sift marks.reverse cs.reverse = ⟨(sift marks cs).done.reverse, (sift marks cs).left.reverse⟩ := by
  simp only [sift, zip_reverse same.symm, List.filter_reverse, List.map_reverse]

end Run.Parts

/-! ## Courses -/

namespace Machine

/-- What the last of some attempts comes to. -/
def result? (m : Machine ω) (course : List (Command × ω)) : Option (Except Failure Unit) :=
  course.getLast?.map fun attempt => (m.execute attempt.1 attempt.2).1

/-- The last of some attempts succeeds. -/
def succeeds (m : Machine ω) (course : List (Command × ω)) : Bool :=
  (m.result? course).any Except.isOk

/-- The failure of the last of some attempts. -/
def failure? (m : Machine ω) (course : List (Command × ω)) : Option Failure :=
  match m.result? course with
  | some (.error failure) => some failure
  | _ => none

end Machine

namespace Run

/-- The attempts at each command of a run. -/
def courses (m : Machine ω) (p : Policy σ ω) (inverse : Bool) :
    List Command → σ → ω → List (List (Command × ω))
  | [], _, _ => []
  | c :: rest, s, w =>
    match m.stopped w with
    | (true, _) => List.replicate (1 + rest.length) []
    | (false, w) =>
      triesOf m p (directed inverse c) s w ::
        match attempt m p (directed inverse c) s w with
        | (.ran, s, w) => courses m p inverse rest s w
        | (.givenUp abort _, s, w) =>
          if abort then List.replicate rest.length [] else courses m p inverse rest s w

section

variable (m : Machine ω) (p : Policy σ ω)

/-- The courses are the attempts of the run. -/
theorem flatten_courses (inverse : Bool) (cs : List Command) (s : σ) (w : ω) :
    (courses m p inverse cs s w).flatten = tries m p inverse cs s w := by
  induction cs generalizing s w with
  | nil => rfl
  | cons c rest ih =>
      rw [courses, tries]
      obtain ⟨_ | _, w'⟩ := m.stopped w
      · simp only [List.flatten_cons, directed]
        generalize (if inverse then c.inverse else c) = step
        obtain ⟨_ | ⟨abort, failure⟩, s', w''⟩ := attempt m p step s w'
        · simp only [ih]
        · cases abort with
          | true => simp only [if_true, List.flatten_replicate_nil]
          | false => simp only [Bool.false_eq_true, if_false, ih]
      · exact List.flatten_replicate_nil

/-- All attempts are at the one command. -/
theorem command_of_mem_triesOf {step : Command} {s : σ} {w : ω} {t : Command × ω}
    (member : t ∈ triesOf m p step s w) : t.1 = step := by
  rw [triesOf_eq] at member
  obtain rfl | later := List.mem_cons.1 member
  · rfl
  · generalize m.execute step (m.note step.description w) = out at later
    obtain ⟨failure | ⟨⟩, w'⟩ := out
    · simp only at later
      rcases decided : p.decide step failure s (m.note ("Failed: " ++ failure.detailed) w') with
        ⟨_ | _ | _, s', w''⟩
      · have shorter := Policy.patience_lt decided
        rw [decided] at later
        exact command_of_mem_triesOf later
      · rw [decided] at later
        cases later
      · rw [decided] at later
        cases later
    · cases later
termination_by p.patience s

/-- What the last attempt comes to. -/
def Attempt.result : Attempt → Except Failure Unit
  | .ran => .ok ()
  | .givenUp _ failure => .error failure

/-- A command runs, or is given up with a failure, as its last attempt does. -/
theorem result?_triesOf (step : Command) (s : σ) (w : ω) :
    m.result? (triesOf m p step s w) = some (attempt m p step s w).1.result := by
  rw [triesOf_eq, attempt_eq, Machine.result?]
  rcases executed : m.execute step (m.note step.description w) with ⟨failure | ⟨⟩, w'⟩
  · simp only
    rcases decided : p.decide step failure s (m.note ("Failed: " ++ failure.detailed) w') with
      ⟨_ | _ | _, s', w''⟩
    · have shorter := Policy.patience_lt decided
      have again := result?_triesOf step s' (m.note "Retrying" w'')
      rw [triesOf_eq] at again
      simp only
      rw [triesOf_eq, List.getLast?_cons_cons]
      exact again
    · simp only [List.getLast?_singleton, Option.map_some, executed]
      rfl
    · simp only [List.getLast?_singleton, Option.map_some, executed]
      rfl
  · simp only [List.getLast?_singleton, Option.map_some, executed]
    rfl
termination_by p.patience s

end

end Run

/-! ## Machines with a record -/

/-- A machine that keeps a record of what it executes, and where. -/
def Machine.recording (m : Machine ω) : Machine (ω × List (Command × ω)) where
  execute c w := ((m.execute c w.1).1, (m.execute c w.1).2, w.2 ++ [(c, w.1)])
  note text w := (m.note text w.1, w.2)
  stopped w := ((m.stopped w.1).1, (m.stopped w.1).2, w.2)

/-- A policy beside a record. -/
def Policy.recording (p : Policy σ ω) : Policy σ (ω × List (Command × ω)) where
  decide c f s w :=
    ((p.decide c f s w.1).1, (p.decide c f s w.1).2.1, (p.decide c f s w.1).2.2, w.2)
  patience := p.patience
  retry_lt c f s w := p.retry_lt c f s w.1

namespace Run

variable (m : Machine ω) (p : Policy σ ω)

/-- The attempts at a command are what is executed for it. -/
theorem attempt_recording (step : Command) (s : σ) (w : ω) (past : List (Command × ω)) :
    attempt m.recording p.recording step s (w, past) =
      ((attempt m p step s w).1, (attempt m p step s w).2.1, (attempt m p step s w).2.2,
        past ++ triesOf m p step s w) := by
  rw [attempt_eq, attempt_eq, triesOf_eq]
  simp only [Machine.recording, Policy.recording]
  rcases m.execute step (m.note step.description w) with ⟨failure | ⟨⟩, w'⟩
  · simp only
    rcases decided : p.decide step failure s (m.note ("Failed: " ++ failure.detailed) w') with
      ⟨_ | _ | _, s', w''⟩
    · have shorter := Policy.patience_lt decided
      have again := attempt_recording step s' (m.note "Retrying" w'')
        (past ++ [(step, m.note step.description w)])
      rw [List.append_assoc] at again
      exact again
    · rfl
    · rfl
  · rfl
termination_by p.patience s

/-- The courses of a run, one after the other, are what its machine executes. -/
theorem steps_recording (inverse : Bool) (cs : List Command) (s : σ) (w : ω)
    (past : List (Command × ω)) (report : Report) :
    steps m.recording p.recording inverse cs ⟨s, (w, past), report⟩ =
      ((steps m p inverse cs ⟨s, w, report⟩).1,
        ⟨(steps m p inverse cs ⟨s, w, report⟩).2.answers,
          ((steps m p inverse cs ⟨s, w, report⟩).2.place,
            past ++ (courses m p inverse cs s w).flatten),
          (steps m p inverse cs ⟨s, w, report⟩).2.report⟩) := by
  rw [flatten_courses]
  induction cs generalizing s w past report with
  | nil => simp [steps, tries]
  | cons c rest ih =>
      have looked : m.recording.stopped (w, past) = ((m.stopped w).1, (m.stopped w).2, past) := rfl
      rw [steps, steps, tries]
      simp only [looked]
      obtain ⟨_ | _, w'⟩ := m.stopped w
      · simp only [attempt_recording]
        generalize (if inverse then c.inverse else c) = step
        obtain ⟨_ | ⟨abort, failure⟩, s', w''⟩ := attempt m p step s w'
        · simp only [ih, List.append_assoc]
        · cases abort with
          | true => simp [Machine.recording]
          | false => simp [ih]
      · simp [Machine.recording]

end Run

end Renumber
