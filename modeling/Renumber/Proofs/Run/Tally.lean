import Renumber.Run.Basic

/-!
# The attempts of a run

A run may try a command several times, and every attempt finds some place. What a run
does as a whole follows from what each of its attempts does, as long as notes, looks for
a cancellation and decisions do nothing that counts.
-/

namespace Renumber.Run

variable {σ ω : Type}

/-- The attempts at one command, each with the place that it found. -/
def triesOf (m : Machine ω) (p : Policy σ ω) (step : Command) (s : σ) (w : ω) : List (Command × ω) :=
  let w := m.note step.description w
  (step, w) ::
    match m.execute step w with
    | (.ok (), _) => []
    | (.error failure, w) =>
      let w := m.note ("Failed: " ++ failure.detailed) w
      match _h : p.decide step failure s w with
      | (.retry, s', w) => triesOf m p step s' (m.note "Retrying" w)
      | (.ignore, _, _) => []
      | (.abort, _, _) => []
termination_by p.patience s
decreasing_by
  have := p.retry_lt step failure s _ (congrArg Prod.fst _h)
  rwa [_h] at this

/-- An attempt goes on with what its first try and the decision on it come to. -/
theorem attempt_eq (m : Machine ω) (p : Policy σ ω) (step : Command) (s : σ) (w : ω) :
    attempt m p step s w = match m.execute step (m.note step.description w) with
      | (.ok (), w) => (.ran, s, w)
      | (.error failure, w) =>
        match p.decide step failure s (m.note ("Failed: " ++ failure.detailed) w) with
        | (.retry, s', w) => attempt m p step s' (m.note "Retrying" w)
        | (.ignore, s', w) => (.givenUp false failure, s', w)
        | (.abort, s', w) => (.givenUp true failure, s', w) := by
  rw [attempt]
  generalize m.execute step (m.note step.description w) = out
  obtain ⟨failure | ⟨⟩, w'⟩ := out
  · simp only
    split <;> next decided => rw [decided]
  · rfl

theorem triesOf_eq (m : Machine ω) (p : Policy σ ω) (step : Command) (s : σ) (w : ω) :
    triesOf m p step s w = (step, m.note step.description w) ::
      match m.execute step (m.note step.description w) with
      | (.ok (), _) => []
      | (.error failure, w) =>
        match p.decide step failure s (m.note ("Failed: " ++ failure.detailed) w) with
        | (.retry, s', w) => triesOf m p step s' (m.note "Retrying" w)
        | _ => [] := by
  rw [triesOf]
  generalize m.execute step (m.note step.description w) = out
  obtain ⟨failure | ⟨⟩, w'⟩ := out
  · simp only
    split <;> next decided => rw [decided]
  · rfl

/-- The attempts of a run, in order. -/
def tries (m : Machine ω) (p : Policy σ ω) (inverse : Bool) : List Command → σ → ω → List (Command × ω)
  | [], _, _ => []
  | c :: rest, s, w =>
    match m.stopped w with
    | (true, _) => []
    | (false, w) =>
      let step := if inverse then c.inverse else c
      triesOf m p step s w ++
        match attempt m p step s w with
        | (.ran, s, w) => tries m p inverse rest s w
        | (.givenUp abort _, s, w) => if abort then [] else tries m p inverse rest s w

/-- An account of what a machine with a policy does to places, where some attempts are
bad. `balance lost w w'` tells that one place became the other and whether anything was
lost; an attempt loses something exactly when it is bad, and nothing else does. -/
structure Tallies (m : Machine ω) (p : Policy σ ω) (named : Command → Prop)
    (bad : Command × ω → Prop) (sound : ω → Prop) (balance : Prop → ω → ω → Prop) : Prop where
  still : ∀ {lost w w'}, balance lost w w' → sound w'
  refl : ∀ {w}, sound w → balance False w w
  trans : ∀ {lost lost' u v w}, balance lost u v → balance lost' v w → balance (lost ∨ lost') u w
  execute : ∀ {c w}, named c → sound w → balance (bad (c, w)) w (m.execute c w).2
  note : ∀ text {w}, sound w → balance False w (m.note text w)
  stopped : ∀ {w}, sound w → balance False w (m.stopped w).2
  decide : ∀ c failure s {w}, sound w → balance False w (p.decide c failure s w).2.2

variable {m : Machine ω} {p : Policy σ ω} {named : Command → Prop} {bad : Command × ω → Prop}
  {sound : ω → Prop} {balance : Prop → ω → ω → Prop}

/-- Nothing is lost after something was. -/
theorem Tallies.andThen (tallies : Tallies m p named bad sound balance) {lost : Prop} {u v w : ω}
    (first : balance lost u v) (nothing : sound v → balance False v w) : balance lost u w := by
  have both := tallies.trans first (nothing (tallies.still first))
  rwa [or_false] at both

/-- The attempts at one command lose something exactly when one of them is bad. -/
theorem Tallies.attempt (tallies : Tallies m p named bad sound balance) {step : Command} {s : σ}
    {w : ω} (name : named step) (before : sound w) :
    balance (∃ t ∈ triesOf m p step s w, bad t) w (attempt m p step s w).2.2 := by
  have noted := tallies.note step.description before
  have first := tallies.trans noted (tallies.execute name (tallies.still noted))
  rw [false_or] at first
  rw [triesOf_eq, attempt_eq]
  simp only [List.mem_cons, exists_eq_or_imp]
  generalize m.execute step (m.note step.description w) = out at *
  obtain ⟨failure | ⟨⟩, w'⟩ := out
  · have told := tallies.andThen first (tallies.note ("Failed: " ++ failure.detailed))
    have decided := tallies.andThen told (tallies.decide step failure s)
    simp only
    rcases outcome : p.decide step failure s (m.note ("Failed: " ++ failure.detailed) w') with
      ⟨decision, s', w''⟩
    rw [outcome] at decided
    cases decision with
    | retry =>
        have shorter := Policy.patience_lt outcome
        have again := tallies.andThen decided (tallies.note "Retrying")
        exact tallies.trans again (tallies.attempt name (tallies.still again))
    | ignore => simpa using decided
    | abort => simpa using decided
  · simpa using first
termination_by p.patience s

/-- A run loses something exactly when one of its attempts is bad. -/
theorem Tallies.steps (tallies : Tallies m p named bad sound balance) {inverse : Bool}
    {cs : List Command} {r : State σ ω}
    (names : ∀ c ∈ cs, named (if inverse then c.inverse else c)) (before : sound r.place) :
    balance (∃ t ∈ tries m p inverse cs r.answers r.place, bad t) r.place
      (Run.steps m p inverse cs r).2.place := by
  induction cs generalizing r with
  | nil => simpa [tries, Run.steps] using tallies.refl before
  | cons c rest ih =>
      have names_rest : ∀ c ∈ rest, named (if inverse then c.inverse else c) :=
        fun c member => names c (List.mem_cons_of_mem _ member)
      have looked := tallies.stopped before
      rw [tries, Run.steps]
      generalize m.stopped r.place = look at *
      obtain ⟨_ | _, w⟩ := look
      · have tried := tallies.trans looked
          (tallies.attempt (s := r.answers) (names c List.mem_cons_self) (tallies.still looked))
        rw [false_or] at tried
        simp only [List.mem_append, or_and_right, exists_or]
        generalize (if inverse then c.inverse else c) = step at *
        simp only at tried ⊢
        generalize Run.attempt m p step r.answers w = outcome at *
        obtain ⟨_ | ⟨abort, failure⟩, s', w'⟩ := outcome
        · exact tallies.trans tried (ih (r := ⟨s', w', _⟩) names_rest (tallies.still tried))
        · cases abort with
          | true => simpa using tallies.andThen tried (tallies.note _)
          | false =>
              exact tallies.trans tried (ih (r := ⟨s', w', _⟩) names_rest (tallies.still tried))
      · simpa using tallies.andThen looked (tallies.note _)

/-- A relation that composes holds between the places before and after a run, if it holds for
each of the commands and for all else that a run does. -/
theorem steps_related {related : ω → ω → Prop} (refl : ∀ w, related w w)
    (trans : ∀ u v w, related u v → related v w → related u w)
    (execute : ∀ c w, named c → related w (m.execute c w).2)
    (note : ∀ text w, related w (m.note text w)) (stopped : ∀ w, related w (m.stopped w).2)
    (decide : ∀ c failure s w, related w (p.decide c failure s w).2.2) {inverse : Bool}
    {cs : List Command} (names : ∀ c ∈ cs, named (if inverse then c.inverse else c))
    (r : State σ ω) : related r.place (Run.steps m p inverse cs r).2.place := by
  have tallies : Tallies m p named (fun _ => False) (fun _ => True) fun _ => related :=
    { still := fun _ => trivial
      refl := fun {w} _ => refl w
      trans := fun {_ _ u v w} first second => trans u v w first second
      execute := fun {c w} name _ => execute c w name
      note := fun text {w} _ => note text w
      stopped := fun {w} _ => stopped w
      decide := fun c failure s {w} _ => decide c failure s w }
  exact tallies.steps names trivial

/-- What everything in a run keeps holds of every place that a try finds. -/
theorem forall_tries (execute : ∀ c {w}, named c → sound w → sound (m.execute c w).2)
    (note : ∀ text {w}, sound w → sound (m.note text w))
    (stopped : ∀ {w}, sound w → sound (m.stopped w).2)
    (decide : ∀ c failure s {w}, sound w → sound (p.decide c failure s w).2.2) {inverse : Bool}
    {cs : List Command} {s : σ} {w : ω}
    (names : ∀ c ∈ cs, named (if inverse then c.inverse else c)) (before : sound w) :
    ∀ t ∈ tries m p inverse cs s w, named t.1 ∧ sound t.2 := by
  have tallies : Tallies m p named (fun t => ¬(named t.1 ∧ sound t.2)) sound
      fun lost _ w' => ¬lost ∧ sound w' :=
    { still := And.right
      refl := fun before => ⟨id, before⟩
      trans := fun first second => ⟨not_or.2 ⟨first.1, second.1⟩, second.2⟩
      execute := fun name before => ⟨fun bad => bad ⟨name, before⟩, execute _ name before⟩
      note := fun text _ before => ⟨id, note text before⟩
      stopped := fun before => ⟨id, stopped before⟩
      decide := fun c failure s _ before => ⟨id, decide c failure s before⟩ }
  have none_bad := (tallies.steps (r := ⟨s, w, {}⟩) names before).1
  exact fun t member => Classical.byContradiction fun bad => none_bad ⟨t, member, bad⟩

end Renumber.Run
