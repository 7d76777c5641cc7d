import Renumber.Proofs.Run.Courses

/-!
# Runs turn by turn

A run has a loop over its commands and in it a loop over the attempts at one. Here it is taken
one turn after the other, and nothing but the decisions on failures keeps a turn from being
followed by another. A run whose policy is known to lose patience is these turns up to their
end: it makes the same attempts and comes to the same place.
-/

namespace Renumber.Run

variable {σ ω : Type}

/-- How failures are decided on. -/
abbrev Decides (σ ω : Type) := Command → Failure → σ → ω → Decision × σ × ω

/-- Where a run is: in front of the commands that are left, at an attempt, or at its end. -/
inductive Turn (σ ω : Type) where
  | choosing (left : List Command) (answers : σ) (place : ω)
  | trying (step : Command) (left : List Command) (answers : σ) (place : ω)
  | ended (answers : σ) (place : ω)

namespace Turn

/-- The attempts made in one turn. -/
def attempts : Turn σ ω → Nat
  | trying _ _ _ _ => 1
  | _ => 0

/-- The turn after this one. A run looks for a cancellation when it turns to a command, but not
between the attempts at it. -/
def next? (m : Machine ω) (decide : Decides σ ω) (inverse : Bool) : Turn σ ω → Option (Turn σ ω)
  | choosing [] s w => some (ended s w)
  | choosing (c :: left) s w =>
    match m.stopped w with
    | (true, w) => some (ended s (m.note "Cancelled, discarding remaining commands" w))
    | (false, w) => some (trying (directed inverse c) left s w)
  | trying step left s w =>
    match m.execute step (m.note step.description w) with
    | (.ok (), w) => some (choosing left s w)
    | (.error failure, w) =>
      match decide step failure s (m.note ("Failed: " ++ failure.detailed) w) with
      | (.retry, s, w) => some (trying step left s (m.note "Retrying" w))
      | (.ignore, s, w) => some (choosing left s w)
      | (.abort, s, w) => some (ended s (m.note "Aborted, discarding remaining commands" w))
  | ended _ _ => none

/-- Where a run is when a command ran or was given up. -/
def after (m : Machine ω) (left : List Command) : Attempt × σ × ω → Turn σ ω
  | (.ran, s, w) => choosing left s w
  | (.givenUp abort _, s, w) =>
    if abort then ended s (m.note "Aborted, discarding remaining commands" w) else choosing left s w

end Turn

/-- So many turns with so many attempts lead from one turn to another. -/
inductive Turns (m : Machine ω) (decide : Decides σ ω) (inverse : Bool) :
    Turn σ ω → Nat → Nat → Turn σ ω → Prop where
  | here (t : Turn σ ω) : Turns m decide inverse t 0 0 t
  | on {t u v : Turn σ ω} {n k : Nat} (next : t.next? m decide inverse = some u)
      (later : Turns m decide inverse u n k v) : Turns m decide inverse t (n + 1) (t.attempts + k) v

variable {m : Machine ω} {decide : Decides σ ω} {p : Policy σ ω} {inverse : Bool}
  {t u v : Turn σ ω} {n n' k k' : Nat}

theorem Turns.trans (first : Turns m decide inverse t n k u)
    (later : Turns m decide inverse u n' k' v) :
    Turns m decide inverse t (n + n') (k + k') v := by
  induction first with
  | here t => rwa [Nat.zero_add, Nat.zero_add]
  | on next _ ih =>
      rw [Nat.add_right_comm _ 1 n', Nat.add_assoc (Turn.attempts _)]
      exact .on next (ih later)

theorem Turns.one (next : t.next? m decide inverse = some u) :
    Turns m decide inverse t 1 t.attempts u :=
  .on next (.here u)

/-- The attempts at one command are turns. -/
theorem turns_attempt (m : Machine ω) (p : Policy σ ω) (inverse : Bool) (step : Command)
    (left : List Command) (s : σ) (w : ω) : ∃ n, Turns m p.decide inverse (.trying step left s w) n
      (triesOf m p step s w).length (.after m left (attempt m p step s w)) := by
  rw [triesOf_eq, attempt_eq]
  rcases executed : m.execute step (m.note step.description w) with ⟨failure | ⟨⟩, w'⟩
  · simp only
    rcases decided : p.decide step failure s (m.note ("Failed: " ++ failure.detailed) w') with
      ⟨_ | _ | _, s', w''⟩
    · have shorter := Policy.patience_lt decided
      obtain ⟨n, later⟩ := turns_attempt m p inverse step left s' (m.note "Retrying" w'')
      rw [List.length_cons, Nat.add_comm]
      exact ⟨n + 1, .on (by simp only [Turn.next?, executed, decided]) later⟩
    · exact ⟨1, .one (by simp only [Turn.next?, executed, decided]; rfl)⟩
    · exact ⟨1, .one (by simp only [Turn.next?, executed, decided]; rfl)⟩
  · exact ⟨1, .one (by simp only [Turn.next?, executed]; rfl)⟩
termination_by p.patience s

/-- The turns of a run end where the run does, with the attempts that it makes. -/
theorem turns_steps (m : Machine ω) (p : Policy σ ω) (inverse : Bool) (cs : List Command) (s : σ)
    (w : ω) (report : Report) : ∃ n, Turns m p.decide inverse (.choosing cs s w) n
      (tries m p inverse cs s w).length
      (.ended (steps m p inverse cs ⟨s, w, report⟩).2.answers
        (steps m p inverse cs ⟨s, w, report⟩).2.place) := by
  induction cs generalizing s w report with
  | nil => exact ⟨1, .one rfl⟩
  | cons c rest ih =>
      rw [tries, steps]
      rcases looked : m.stopped w with ⟨_ | _, w'⟩
      · have next : Turn.next? m p.decide inverse (.choosing (c :: rest) s w) =
            some (.trying (directed inverse c) rest s w') := by
          simp only [Turn.next?, looked]
        obtain ⟨n, tried⟩ := turns_attempt m p inverse (directed inverse c) rest s w'
        have first := Turns.trans (.one next) tried
        simp only [directed] at first ⊢
        rw [show Turn.attempts (.choosing (c :: rest) s w) = 0 from rfl, Nat.zero_add] at first
        rw [List.length_append]
        generalize (if inverse then c.inverse else c) = step at *
        generalize attempt m p step s w' = outcome at *
        obtain ⟨_ | ⟨_ | _, failure⟩, s', w''⟩ := outcome
        · obtain ⟨n', later⟩ := ih s' w'' _
          exact ⟨_, first.trans later⟩
        · obtain ⟨n', later⟩ := ih s' w'' _
          exact ⟨_, first.trans later⟩
        · exact ⟨_, first⟩
      · exact ⟨1, .one (by simp only [Turn.next?, looked])⟩

/-- What a machine is asked to execute in a run, and where. -/
def attempted (m : Machine ω) (p : Policy σ ω) (inverse : Bool) (cs : List Command) (r : State σ ω) :
    List (Command × ω) :=
  (commands m.recording p.recording inverse cs ⟨r.answers, (r.place, []), r.report⟩).2.place.2

/-- A run is its turns up to their end. -/
theorem turns_commands (m : Machine ω) (p : Policy σ ω) (inverse : Bool) (cs : List Command)
    (r : State σ ω) : ∃ n, Turns m p.decide inverse (.choosing cs r.answers r.place) n
      (attempted m p inverse cs r).length
      (.ended (commands m p inverse cs r).2.answers (commands m p inverse cs r).2.place) := by
  have made : attempted m p inverse cs r = tries m p inverse cs r.answers r.place := by
    rw [attempted, commands, steps_recording, flatten_courses, List.nil_append]
  rw [made]
  exact turns_steps m p inverse cs r.answers r.place _

end Renumber.Run
