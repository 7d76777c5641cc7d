import Renumber.Run.Basic

/-!
# Runs on an abstract state

Where the place that commands run on stands for an abstract state, on which each command
either has an effect or is impossible, a run is described there. The commands that are
counted as done take the abstract state from before the run to after it, one after the
other; and when all commands are possible in order, only a cancellation leaves any.
-/

namespace Renumber.Run

variable {σ ω α : Type}

/-- The command that is run for a command of a batch. -/
def directed (inverse : Bool) (c : Command) : Command :=
  if inverse then c.inverse else c

/-- A machine does on its places what commands mean on abstract states, where that is
possible, and notes leave the abstract state. -/
structure Does (m : Machine ω) (relation : ω → α → Prop) (meaning : α → Command → Option α)
    (named : Command → Prop) : Prop where
  runs : ∀ c w a a', named c → relation w a → meaning a c = some a' →
    ∃ w', m.execute c w = (.ok (), w') ∧ relation w' a'
  note : ∀ text w a, relation w a → relation (m.note text w) a

/-- Besides, with a policy, a command that is impossible fails and leaves the abstract
state, as do all looks for a cancellation and decisions. -/
structure Refines (m : Machine ω) (p : Policy σ ω) (relation : ω → α → Prop)
    (meaning : α → Command → Option α) (named : Command → Prop) : Prop
    extends Does m relation meaning named where
  fails : ∀ c w a, named c → relation w a → meaning a c = none →
    ∃ failure w', m.execute c w = (.error failure, w') ∧ relation w' a
  stopped : ∀ w a, relation w a → relation (m.stopped w).2 a
  decide : ∀ c failure s w a, relation w a → relation (p.decide c failure s w).2.2 a

variable {m : Machine ω} {p : Policy σ ω} {relation : ω → α → Prop}
  {meaning : α → Command → Option α} {named : Command → Prop}

/-- A possible command runs at the first try, so the policy is not asked. -/
theorem Does.attempt (does : Does m relation meaning named) (p : Policy σ ω) {c : Command}
    (s : σ) {w : ω} {a a' : α} (name : named c) (related : relation w a)
    (possible : meaning a c = some a') :
    ∃ w', attempt m p c s w = (.ran, s, w') ∧ relation w' a' := by
  obtain ⟨w', done, related'⟩ :=
    does.runs c _ a a' name (does.note c.description w a related) possible
  refine ⟨w', ?_, related'⟩
  rw [Run.attempt]
  simp only [done]

/-- Where all commands are possible in order and nobody stops the run, all of them are
done, whatever the policy is. -/
theorem Does.steps (does : Does m relation meaning named) (p : Policy σ ω) (inverse : Bool)
    (goes_on : ∀ w a, relation w a → ∃ w', m.stopped w = (false, w') ∧ relation w' a)
    {cs : List Command} {r : State σ ω} {a a' : α}
    (names : ∀ c ∈ cs, named (directed inverse c)) (related : relation r.place a)
    (possible : (cs.map (directed inverse)).foldlM meaning a = some a') :
    ∃ w', relation w' a' ∧ Run.steps m p inverse cs r =
      (⟨cs, []⟩,
        ⟨r.answers, w', { r.report with executed := r.report.executed + cs.length }⟩) := by
  induction cs generalizing r a with
  | nil =>
      cases possible
      exact ⟨r.place, related, rfl⟩
  | cons c rest ih =>
      have names_rest : ∀ c ∈ rest, named (directed inverse c) :=
        fun c member => names c (List.mem_cons_of_mem _ member)
      rw [List.map_cons, List.foldlM_cons] at possible
      obtain ⟨between, first, later⟩ := Option.bind_eq_some_iff.1 possible
      obtain ⟨looked, go, related'⟩ := goes_on r.place a related
      obtain ⟨w', ran, related''⟩ :=
        does.attempt p r.answers (names c List.mem_cons_self) related' first
      obtain ⟨w'', final, all⟩ :=
        ih (r := ⟨r.answers, w', { r.report with executed := r.report.executed + 1 }⟩)
          names_rest related'' later
      refine ⟨w'', final, ?_⟩
      rw [directed] at ran
      rw [Run.steps, go]
      simp only [ran, all, List.length_cons]
      rw [Nat.add_right_comm, Nat.add_assoc]

/-- An impossible command is given up in the end, and leaves the abstract state. -/
theorem Refines.attempt_of_none (refines : Refines m p relation meaning named) {c : Command}
    {s : σ} {w : ω} {a : α} (name : named c) (related : relation w a)
    (impossible : meaning a c = none) :
    ∃ abort failure s' w', attempt m p c s w = (.givenUp abort failure, s', w') ∧
      relation w' a := by
  obtain ⟨failure, w', failed, related'⟩ :=
    refines.fails c _ a name (refines.note c.description w a related) impossible
  have noted := refines.note ("Failed: " ++ failure.detailed) w' a related'
  have decided := refines.decide c failure s _ a noted
  rw [attempt]
  simp only [failed]
  split
  · next s' w'' retry =>
    rw [retry] at decided
    have shorter := Policy.patience_lt retry
    exact refines.attempt_of_none name (refines.note "Retrying" w'' a decided) impossible
  · next s' w'' ignore =>
    rw [ignore] at decided
    exact ⟨false, failure, s', w'', rfl, decided⟩
  · next s' w'' abort =>
    rw [abort] at decided
    exact ⟨true, failure, s', w'', rfl, decided⟩
termination_by p.patience s

/-- The commands that are counted as done lead from the abstract state before a run to
the one after it. -/
theorem Refines.steps (refines : Refines m p relation meaning named) (inverse : Bool)
    {cs : List Command} {r : State σ ω} {a : α} (names : ∀ c ∈ cs, named (directed inverse c))
    (related : relation r.place a) :
    ∃ a', ((Run.steps m p inverse cs r).1.done.map (directed inverse)).foldlM meaning a = some a' ∧
      relation (Run.steps m p inverse cs r).2.place a' := by
  induction cs generalizing r a with
  | nil => exact ⟨a, rfl, related⟩
  | cons c rest ih =>
      have names_rest : ∀ c ∈ rest, named (directed inverse c) :=
        fun c member => names c (List.mem_cons_of_mem _ member)
      have looked := refines.stopped r.place a related
      rw [Run.steps]
      split
      · next w stop =>
        rw [stop] at looked
        exact ⟨a, rfl, refines.note _ w a looked⟩
      · next w go =>
        rw [go] at looked
        cases possible : meaning a (directed inverse c) with
        | some a' =>
            obtain ⟨w', ran, related'⟩ :=
              refines.attempt p r.answers (names c List.mem_cons_self) looked possible
            rw [directed] at ran
            simp only [ran]
            obtain ⟨a'', done, final⟩ :=
              ih (r := ⟨r.answers, w', { r.report with executed := r.report.executed + 1 }⟩)
                names_rest related'
            refine ⟨a'', ?_, final⟩
            rw [List.map_cons, List.foldlM_cons, possible]
            exact done
        | none =>
            obtain ⟨abort, failure, s', w', given_up, related'⟩ :=
              refines.attempt_of_none (s := r.answers) (names c List.mem_cons_self) looked
                possible
            rw [directed] at given_up
            simp only [given_up]
            cases abort with
            | true => exact ⟨a, rfl, refines.note _ w' a related'⟩
            | false => exact ih (r := ⟨s', w', _⟩) names_rest related'

/-- What a run adds to its account when all its commands are possible in order: nothing
failed or aborted it, and what is left was cancelled. -/
structure CutShort (cs : List Command) (before after : Report) (parts : Parts) : Prop where
  split : parts.done ++ parts.left = cs
  failed : after.failed = before.failed
  aborted : after.aborted = before.aborted
  executed : after.executed = before.executed + parts.done.length
  total : after.total = before.total
  cancelled : parts.left = [] ∨ after.cancelled = true

/-- When all commands are possible in order, they are done in order, and only a
cancellation leaves any. -/
theorem Refines.steps_of_possible (refines : Refines m p relation meaning named)
    (inverse : Bool) {cs : List Command} {r : State σ ω} {a a' : α}
    (names : ∀ c ∈ cs, named (directed inverse c)) (related : relation r.place a)
    (possible : (cs.map (directed inverse)).foldlM meaning a = some a') :
    CutShort cs r.report (Run.steps m p inverse cs r).2.report (Run.steps m p inverse cs r).1 := by
  induction cs generalizing r a with
  | nil => exact ⟨rfl, rfl, rfl, rfl, rfl, .inl rfl⟩
  | cons c rest ih =>
      have looked := refines.stopped r.place a related
      rw [List.map_cons, List.foldlM_cons] at possible
      obtain ⟨between, first, later⟩ := Option.bind_eq_some_iff.1 possible
      rw [Run.steps]
      split
      · next w stop => exact ⟨rfl, rfl, rfl, rfl, rfl, .inr rfl⟩
      · next w go =>
        rw [go] at looked
        obtain ⟨w', ran, related'⟩ :=
          refines.attempt p r.answers (names c List.mem_cons_self) looked first
        rw [directed] at ran
        simp only [ran]
        have rest_run :=
          ih (r := ⟨r.answers, w', { r.report with executed := r.report.executed + 1 }⟩)
            (fun c member => names c (List.mem_cons_of_mem _ member)) related' later
        refine ⟨?_, rest_run.failed, rest_run.aborted, ?_, rest_run.total, rest_run.cancelled⟩
        · rw [List.cons_append, rest_run.split]
        · rw [rest_run.executed, List.length_cons]
          simp only
          omega

/-- A run that nobody stops is not cancelled. -/
theorem Refines.not_cancelled (refines : Refines m p relation meaning named) (inverse : Bool)
    {cs : List Command} {r : State σ ω} {a : α}
    (names : ∀ c ∈ cs, named (directed inverse c)) (related : relation r.place a)
    (never : ∀ w a, relation w a → (m.stopped w).1 = false) :
    (Run.steps m p inverse cs r).2.report.cancelled = r.report.cancelled := by
  induction cs generalizing r a with
  | nil => rfl
  | cons c rest ih =>
      have names_rest : ∀ c ∈ rest, named (directed inverse c) :=
        fun c member => names c (List.mem_cons_of_mem _ member)
      have looked := refines.stopped r.place a related
      have goes_on := never r.place a related
      rw [Run.steps]
      split
      · next w stop =>
        rw [stop] at goes_on
        cases goes_on
      · next w go =>
        rw [go] at looked
        cases possible : meaning a (directed inverse c) with
        | some a' =>
            obtain ⟨w', ran, related'⟩ :=
              refines.attempt p r.answers (names c List.mem_cons_self) looked possible
            rw [directed] at ran
            simp only [ran]
            exact ih (r := ⟨r.answers, w', _⟩) names_rest related'
        | none =>
            obtain ⟨abort, failure, s', w', given_up, related'⟩ :=
              refines.attempt_of_none (s := r.answers) (names c List.mem_cons_self) looked
                possible
            rw [directed] at given_up
            simp only [given_up]
            cases abort with
            | true => rfl
            | false => exact ih (r := ⟨s', w', _⟩) names_rest related'

end Renumber.Run
