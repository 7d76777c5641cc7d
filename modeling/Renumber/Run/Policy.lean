import Renumber.Command

/-!
# What to do after a failure

A policy decides what happens when a command fails: try it again, go on without it, or
stop. It may keep a state of its own and may act on what the commands act on. It must
run out of retries some day: `patience` goes down with every retry, so every run ends.
-/

namespace Renumber

/-- What to do after a command failed. -/
inductive Decision where
  | retry
  | ignore
  | abort
  deriving DecidableEq, Repr

/-- A policy with states in `σ` that acts on `ω`. -/
structure Policy (σ ω : Type) where
  decide : Command → Failure → σ → ω → Decision × σ × ω
  patience : σ → Nat
  retry_lt : ∀ c f s w, (decide c f s w).1 = .retry →
    patience (decide c f s w).2.1 < patience s

namespace Policy

/-- After a retry less patience is left. -/
theorem patience_lt {σ ω : Type} {p : Policy σ ω} {c : Command} {f : Failure} {s s' : σ} {w w' : ω}
    (decided : p.decide c f s w = (.retry, s', w')) : p.patience s' < p.patience s := by
  have less := p.retry_lt c f s w (congrArg Prod.fst decided)
  rwa [decided] at less

/-- Always ignore, or always abort. -/
def fixed {σ ω : Type} (ignore : Bool) : Policy σ ω where
  decide _ _ s w := (if ignore then .ignore else .abort, s, w)
  patience _ := 0
  retry_lt _ _ _ _ h := by cases ignore <;> simp at h

/-- A policy that acts on a world acts on a workspace around it. -/
def onWorkspace {σ : Type} (p : Policy σ World) : Policy σ Workspace where
  decide c f s ws :=
    let (decision, s, world) := p.decide c f s ws.world
    (decision, s, { ws with world })
  patience := p.patience
  retry_lt c f s ws h := p.retry_lt c f s ws.world h

end Policy

end Renumber
