/-!
# Outcomes

An action that fails leaves the state of its failure behind, so its outcome is a result
together with a state in every case. These equations say how outcomes compose, whatever
the state is. A relation between states that composes holds along an action when it holds
along its parts, whatever succeeds or fails.
-/

namespace Renumber.Outcome

variable {ε ε' α β σ : Type}

/-- An action that cannot fail hands over its result and the state. -/
theorem run_bindState (x : StateM σ α) (f : α → StateM σ β) (s : σ) :
    (x >>= f).run s = (f (x.run s).1).run (x.run s).2 := rfl

theorem run_pure (a : α) (s : σ) : (pure a : ExceptT ε (StateM σ) α).run.run s = (.ok a, s) := rfl

theorem run_throw (e : ε) (s : σ) :
    (throw e : ExceptT ε (StateM σ) α).run.run s = (.error e, s) := rfl

theorem run_get (s : σ) : (get : ExceptT ε (StateM σ) σ).run.run s = (.ok s, s) := rfl

theorem run_modifyGet (f : σ → α × σ) (s : σ) :
    (modifyGet f : ExceptT ε (StateM σ) α).run.run s = (.ok (f s).1, (f s).2) := rfl

theorem run_modify (f : σ → σ) (s : σ) :
    (modify f : ExceptT ε (StateM σ) PUnit).run.run s = (.ok ⟨⟩, f s) := rfl

theorem run_lift (x : StateM σ α) (s : σ) :
    (liftM x : ExceptT ε (StateM σ) α).run.run s = (.ok (x.run s).1, (x.run s).2) := rfl

theorem run_bind (x : ExceptT ε (StateM σ) α) (f : α → ExceptT ε (StateM σ) β) (s : σ) :
    (x >>= f).run.run s = match x.run.run s with
      | (.ok a, s') => (f a).run.run s'
      | (.error e, s') => (.error e, s') := by
  change (ExceptT.bindCont f (x.run.run s).1).run (x.run.run s).2 = _
  rcases x.run.run s with ⟨r | r, s'⟩ <;> rfl

theorem run_discard (x : ExceptT ε (StateM σ) α) (s : σ) :
    (discard x).run.run s = match x.run.run s with
      | (.ok _, s') => (.ok (), s')
      | (.error e, s') => (.error e, s') := by
  change (match (x.run.run s).1 with
    | .ok _ => (pure (.ok ()) : StateM σ (Except ε PUnit))
    | .error e => pure (.error e)).run (x.run.run s).2 = _
  rcases x.run.run s with ⟨r | r, s'⟩ <;> rfl

theorem run_tryCatch (x : ExceptT ε (StateM σ) α) (f : ε → ExceptT ε (StateM σ) α) (s : σ) :
    (tryCatch x f).run.run s = match x.run.run s with
      | (.ok a, s') => (.ok a, s')
      | (.error e, s') => (f e).run.run s' := by
  change (match (x.run.run s).1 with
    | .ok a => (pure (.ok a) : StateM σ (Except ε α))
    | .error e => (f e).run).run (x.run.run s).2 = _
  rcases x.run.run s with ⟨r | r, s'⟩ <;> rfl

theorem run_adapt (f : ε → ε') (x : ExceptT ε (StateM σ) α) (s : σ) :
    (ExceptT.adapt f x).run.run s = ((x.run.run s).1.mapError f, (x.run.run s).2) := rfl

theorem run_ite (c : Prop) [Decidable c] (x y : ExceptT ε (StateM σ) α) (s : σ) :
    (if c then x else y).run.run s = if c then x.run.run s else y.run.run s := by
  split <;> rfl

theorem run_liftExcept (e : Except ε α) (s : σ) :
    (liftM e : ExceptT ε (StateM σ) α).run.run s = (e, s) := rfl

/-- A sequence that succeeds does so at both steps. -/
theorem bind_eq_ok {x : ExceptT ε (StateM σ) α} {f : α → ExceptT ε (StateM σ) β} {s s'' : σ} {b : β}
    (ran : (x >>= f).run.run s = (.ok b, s'')) :
    ∃ a s', x.run.run s = (.ok a, s') ∧ (f a).run.run s' = (.ok b, s'') := by
  rw [run_bind] at ran
  generalize x.run.run s = out at ran ⊢
  obtain ⟨failure | a, s'⟩ := out
  · cases ran
  · exact ⟨a, s', rfl, ran⟩

theorem adapt_eq_ok {f : ε → ε'} {x : ExceptT ε (StateM σ) α} {s s' : σ} {a : α}
    (ran : (ExceptT.adapt f x).run.run s = (.ok a, s')) : x.run.run s = (.ok a, s') := by
  rw [run_adapt] at ran
  generalize x.run.run s = out at ran ⊢
  obtain ⟨failure | a', s''⟩ := out
  · cases ran
  · cases ran
    rfl

theorem discard_eq_ok {x : ExceptT ε (StateM σ) α} {s s' : σ} {u : PUnit}
    (ran : (discard x).run.run s = (.ok u, s')) : ∃ a, x.run.run s = (.ok a, s') := by
  rw [run_discard] at ran
  generalize x.run.run s = out at ran ⊢
  obtain ⟨failure | a, s''⟩ := out
  · cases ran
  · cases ran
    exact ⟨a, rfl⟩

theorem exists_of_toOption {ε α β : Type} {result : Except ε α} {f : α → β} {b : β}
    (known : result.toOption.map f = some b) : ∃ a, result = .ok a ∧ f a = b := by
  cases result with
  | error failure => cases known
  | ok a => exact ⟨a, rfl, Option.some.inj known⟩

theorem eq_ok_of_mapError {f : ε → ε'} {x : Except ε α} {a : α} (ok : x.mapError f = .ok a) :
    x = .ok a := by
  cases x with
  | error e => cases ok
  | ok a' => exact congrArg Except.ok (Except.ok.inj ok)

/-- A reader that found something hands it to the next one. -/
theorem bind_of_some {x : Option α} {a : α} (found : x = some a) (f : α → Option β) :
    (x >>= f) = f a := by
  rw [found]
  rfl

/-- What a guard lets through meets its condition. -/
theorem guard_bind_eq_some {p : Prop} [Decidable p] {f : Unit → Option α} {a : α} :
    (guard p : Option Unit).bind f = some a ↔ p ∧ f () = some a := by
  by_cases holds : p
  · have passed : (guard p : Option Unit) = some () := if_pos holds
    rw [passed, Option.bind_some]
    exact (and_iff_right holds).symm
  · have stopped : (guard p : Option Unit) = none := if_neg holds
    rw [stopped, Option.bind_none]
    exact ⟨nofun, fun both => absurd both.1 holds⟩

/-! ## Relations along actions -/

/-- Whatever an action does, and however it ends, the state after it is related to the
state before. -/
def Along (related : σ → σ → Prop) (x : ExceptT ε (StateM σ) α) : Prop :=
  ∀ s, related s (x.run.run s).2

section

variable {related : σ → σ → Prop}

theorem Along.pure (refl : ∀ s, related s s) (a : α) :
    Along related (pure a : ExceptT ε (StateM σ) α) :=
  fun s => refl s

theorem Along.throw (refl : ∀ s, related s s) (e : ε) :
    Along related (throw e : ExceptT ε (StateM σ) α) :=
  fun s => refl s

theorem Along.get (refl : ∀ s, related s s) : Along related (get : ExceptT ε (StateM σ) σ) :=
  fun s => refl s

theorem Along.bind (trans : ∀ r s t, related r s → related s t → related r t)
    {x : ExceptT ε (StateM σ) α} {f : α → ExceptT ε (StateM σ) β} (first : Along related x)
    (second : ∀ a, Along related (f a)) : Along related (x >>= f) := by
  intro s
  have before := first s
  rw [run_bind]
  generalize x.run.run s = outcome at before ⊢
  rcases outcome with ⟨e | a, s'⟩
  · exact before
  · exact trans _ _ _ before (second a s')

theorem Along.tryCatch (trans : ∀ r s t, related r s → related s t → related r t)
    {x : ExceptT ε (StateM σ) α} {f : ε → ExceptT ε (StateM σ) α} (first : Along related x)
    (second : ∀ e, Along related (f e)) : Along related (tryCatch x f) := by
  intro s
  have before := first s
  rw [run_tryCatch]
  generalize x.run.run s = outcome at before ⊢
  rcases outcome with ⟨e | a, s'⟩
  · exact trans _ _ _ before (second e s')
  · exact before

theorem Along.adapt {x : ExceptT ε (StateM σ) α} (along : Along related x) (f : ε → ε') :
    Along related (ExceptT.adapt f x) := by
  intro s
  rw [run_adapt]
  exact along s

theorem Along.mapM (refl : ∀ s, related s s) (trans : ∀ r s t, related r s → related s t → related r t)
    {f : α → ExceptT ε (StateM σ) β} (each : ∀ a, Along related (f a)) (as : List α) :
    Along related (as.mapM f) := by
  induction as with
  | nil => exact .pure refl _
  | cons a as ih =>
      rw [List.mapM_cons]
      exact (each a).bind trans fun _ => ih.bind trans fun _ => .pure refl _

/-- Where each of some actions leaves the state alone, so do all of them in order, and every
result is one of theirs. -/
theorem mapM_reads {f : α → ExceptT ε (StateM σ) β} {s s' : σ}
    (reads : ∀ a s, ((f a).run.run s).2 = s) {as : List α} {bs : List β}
    (ran : (as.mapM f).run.run s = (.ok bs, s')) :
    s' = s ∧ ∀ b ∈ bs, ∃ a ∈ as, (f a).run.run s = (.ok b, s) := by
  induction as generalizing s bs with
  | nil =>
      cases ran
      exact ⟨rfl, List.forall_mem_nil _⟩
  | cons a rest ih =>
      rw [List.mapM_cons] at ran
      obtain ⟨b, s₁, first, ran⟩ := bind_eq_ok ran
      obtain ⟨later, s₂, others, made⟩ := bind_eq_ok ran
      cases made
      have same : s₁ = s := (congrArg Prod.snd first).symm.trans (reads a s)
      subst same
      obtain ⟨rfl, each⟩ := ih others
      refine ⟨rfl, List.forall_mem_cons.2 ⟨⟨a, List.mem_cons_self, first⟩, fun b among => ?_⟩⟩
      obtain ⟨a', member, read⟩ := each b among
      exact ⟨a', List.mem_cons_of_mem _ member, read⟩

theorem Along.ite {c : Prop} [Decidable c] {x y : ExceptT ε (StateM σ) α} (yes : c → Along related x)
    (no : ¬c → Along related y) : Along related (if c then x else y) := by
  split
  · next h => exact yes h
  · next h => exact no h

end

end Renumber.Outcome
