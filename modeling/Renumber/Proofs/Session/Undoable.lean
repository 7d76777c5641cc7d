import Renumber.Proofs.Session.Edits
import Renumber.Proofs.World.Sample

/-!
# Undoing and redoing edits

Edits that were made lie on the history as batches of one command each. Undoing them one
by one leads back through what was wanted before each of them, and redoing them leads
through what each of them led to. Between two edits wishes may have been looked at, which
builds them; so the wishes on the way back may hold more than they did on the way forth,
and the way is followed for all wishes that restore what was there.
-/

namespace Renumber.Session

open Wishes (Restores)

/-! ## Ways through wishes -/

/-- From these wishes the batches can be undone one after the other, newest first. On the
way lies, for every batch, what was wanted after it and before it. -/
inductive Rewinds : List (Wishes × Wishes) → List Batch → Wishes → Prop
  | nil (now : Wishes) : Rewinds [] [] now
  | cons {now before after : Wishes} {b : Batch} {command : Command} {trail : List (Wishes × Wishes)}
      {bs : List Batch} (commands : b.commands = [command]) (edit : b.isRecorded = false)
      (reached : Restores now after) (fits : now.Fits command.inverse)
      (restored : Restores (now.amended command.inverse) before)
      (later : Rewinds trail bs (now.amended command.inverse)) :
      Rewinds ((before, after) :: trail) (b :: bs) now

/-- From these wishes the batches can be redone one after the other. On the way lies what
was wanted after each of them. -/
inductive Replays : List Wishes → List Batch → Wishes → Prop
  | nil (now : Wishes) : Replays [] [] now
  | cons {now after : Wishes} {b : Batch} {command : Command} {sets : List Wishes} {bs : List Batch}
      (commands : b.commands = [command]) (edit : b.isRecorded = false) (fits : now.Fits command)
      (reached : Restores (now.amended command) after) (later : Replays sets bs (now.amended command)) :
      Replays (after :: sets) (b :: bs) now

/-! ## Edits in a row -/

/-- Edits were tried one after the other, and some of them were made: the trail holds what
was wanted before and after each of these, newest first. Each edit has a conduct of its own
and may find any world. -/
inductive Edited (first : Session) : List (Wishes × Wishes) → Session → Prop
  | start : Edited first [] first
  | quiet {σ : Type} {trail : List (Wishes × Wishes)} {s : Sitting σ}
      (before : Edited first trail s.session) (c : Conduct σ) (e : Edit)
      (nothing : (e.run c s).report.executed = s.report.executed) :
      Edited first trail (e.run c s).session
  | made {σ : Type} {trail : List (Wishes × Wishes)} {s : Sitting σ}
      (before : Edited first trail s.session) (c : Conduct σ) (e : Edit)
      (ran : (e.run c s).report.executed = s.report.executed + 1) :
      Edited first ((s.session.items.wishes, (e.run c s).session.items.wishes) :: trail)
        (e.run c s).session

/-- An operation was done again and again under conducts that nobody stopped. The list
holds what was wanted after each time. -/
inductive Repeated (o : Operation) : Session → List Wishes → Session → Prop
  | never (session : Session) : Repeated o session [] session
  | once {σ : Type} {s : Sitting σ} {c : Conduct σ} {sets : List Wishes} {session : Session}
      (going : (c.stopped s.world).1 = false) (later : Repeated o (o.run c s).session sets session) :
      Repeated o s.session ((o.run c s).session.items.wishes :: sets) session

variable {σ : Type} {first session session' : Session} {trail : List (Wishes × Wishes)}
  {sets : List Wishes} {bs older : List Batch}

/-- What the edits that were made have left on the history can be undone from whatever
restores the wishes as they are. -/
structure Traced (first session : Session) (trail : List (Wishes × Wishes)) (bs : List Batch) : Prop where
  reached : session.Reached
  size : bs.length = trail.length
  done : session.history.done = bs ++ first.history.done
  limit : session.history.limit = first.history.limit
  undone : trail ≠ [] → session.history.undone = []
  rewinds : ∀ now, Restores now session.items.wishes → Rewinds trail bs now

theorem Traced.quiet {s : Sitting σ} {c : Conduct σ} {e : Edit} (traced : Traced first s.session trail bs)
    (quiet : Quiet s (e.run c s)) : Traced first (e.run c s).session trail bs where
  reached := .operation traced.reached c (.edit e)
  size := traced.size
  done := quiet.history ▸ traced.done
  limit := quiet.history ▸ traced.limit
  undone := quiet.history ▸ traced.undone
  rewinds now restores := traced.rewinds now (restores.trans quiet.wishes)

theorem Traced.made {s : Sitting σ} {c : Conduct σ} {e : Edit} (traced : Traced first s.session trail bs)
    (room : first.history.done.length + (trail.length + 1) ≤ max first.history.limit 1)
    (made : Made s (e.run c s)) : ∃ b, Traced first (e.run c s).session
      ((s.session.items.wishes, (e.run c s).session.items.wishes) :: trail) (b :: bs) := by
  obtain ⟨b, command, looked, commands, history, restores, fits, edit, wishes⟩ := made.batch
  have all : (b :: s.session.history.done).take (max s.session.history.limit 1) =
      b :: s.session.history.done := by
    apply List.take_of_length_le
    rw [traced.limit, traced.done, List.length_cons, List.length_append, traced.size]
    omega
  refine ⟨b, .operation traced.reached c (.edit e), ?_, ?_, ?_, ?_, ?_⟩
  · rw [List.length_cons, List.length_cons, traced.size]
  · rw [history, List.cons_append, ← traced.done]
    exact all
  · rw [history]
    exact traced.limit
  · intro _
    rw [history]
    rfl
  · intro now reached
    have after := reached
    rw [wishes] at after
    have back := after.amended fits.inverse
    rw [fits.amended_inverse] at back
    exact .cons commands edit reached (after.fits fits.inverse) (back.trans restores)
      (traced.rewinds _ (back.trans restores))

theorem Edited.traced (edited : Edited first trail session) (reached : first.Reached)
    (room : first.history.done.length + trail.length ≤ max first.history.limit 1) :
    ∃ bs, Traced first session trail bs := by
  induction edited with
  | start => exact ⟨[], reached, rfl, rfl, rfl, fun none => absurd rfl none, fun now _ => .nil now⟩
  | quiet before c e nothing ih =>
      obtain ⟨bs, traced⟩ := ih room
      obtain quiet | made := e.outcome c traced.reached.keyed
      · exact ⟨bs, traced.quiet quiet⟩
      · exact absurd (nothing.symm.trans made.executed) (by omega)
  | made before c e ran ih =>
      rw [List.length_cons] at room
      obtain ⟨bs, traced⟩ := ih (by omega)
      obtain quiet | made := e.outcome c traced.reached.keyed
      · exact absurd (quiet.executed.symm.trans ran) (by omega)
      · obtain ⟨b, traced⟩ := traced.made room made
        exact ⟨b :: bs, traced⟩

/-! ## Back and forth again -/

/-- The sitting after an edit was undone or redone, with what it is now known to be. -/
structure Turned (s s' : Sitting σ) (h : History) (now : Wishes) : Prop where
  history : s'.session.history = h
  wishes : s'.session.items.wishes = now

theorem settle_of_edit {b : Batch} (edit : b.isRecorded = false) (moves : List (Path × Path))
    (s : Sitting σ) : settle b moves s = s := by
  rw [Batch.isRecorded] at edit
  rw [settle]
  cases kind : b.kind with
  | rename | touch =>
      rw [kind] at edit
      cases edit
  | _ => rfl

section

variable {s : Sitting σ} {b : Batch} {command : Command} {rest : List Batch}

/-- An edit whose inverse can be made is undone as a whole. -/
theorem undo_fits (c : Conduct σ) (done : s.session.history.done = b :: rest)
    (commands : b.commands = [command]) (edit : b.isRecorded = false)
    (fits : s.session.items.wishes.Fits command.inverse) (going : (c.stopped s.world).1 = false) :
    Turned s (Operation.undo.run c s)
      ⟨rest, b :: s.session.history.undone, s.session.history.limit⟩
      (s.session.items.wishes.amended command.inverse) := by
  obtain ⟨r', set', ran, -, items, wishes⟩ :=
    Conduct.run_fits (r := stateOf s (some s.session.items)) c true rfl fits going
  have undone : s.session.history.undo c.machine c.policy.onWorkspace
      (stateOf s (some s.session.items)) =
        (some b, ⟨rest, b :: s.session.history.undone, s.session.history.limit⟩, r') :=
    History.undo_of_done done commands edit ran
  rw [Operation.run, run_undo_eq, undone]
  dsimp only [turned]
  rw [settle_of_edit edit]
  refine ⟨rfl, ?_⟩
  dsimp only [ended, after]
  rw [items]
  exact wishes

/-- An edit that can be made again is redone as a whole. -/
theorem redo_fits (c : Conduct σ) (undone : s.session.history.undone = b :: rest)
    (room : s.session.history.done.length < max s.session.history.limit 1)
    (commands : b.commands = [command]) (edit : b.isRecorded = false)
    (fits : s.session.items.wishes.Fits command) (going : (c.stopped s.world).1 = false) :
    Turned s (Operation.redo.run c s)
      ⟨b :: s.session.history.done, rest, s.session.history.limit⟩
      (s.session.items.wishes.amended command) := by
  obtain ⟨r', set', ran, -, items, wishes⟩ :=
    Conduct.run_fits (r := stateOf s (some s.session.items)) c false rfl fits going
  have redone : s.session.history.redo c.machine c.policy.onWorkspace
      (stateOf s (some s.session.items)) =
        (some b, ⟨b :: s.session.history.done, rest, s.session.history.limit⟩, r') :=
    History.redo_of_done undone room commands edit ran
  rw [Operation.run, run_redo_eq, redone]
  dsimp only [turned]
  rw [settle_of_edit edit]
  refine ⟨rfl, ?_⟩
  dsimp only [ended, after]
  rw [items]
  exact wishes

end

/-- Undoing follows the way back, and leaves a way forth. -/
theorem Repeated.undo {back : List Wishes} {und : List Batch}
    (repeated : Repeated .undo session back session') (rewinds : Rewinds trail bs session.items.wishes)
    (replays : Replays sets und session.items.wishes) (all : back.length = trail.length)
    (done : session.history.done = bs ++ older) :
    List.Forall₂ Restores back (trail.map Prod.fst) ∧
      session'.history = ⟨older, bs.reverse ++ session.history.undone, session.history.limit⟩ ∧
      Replays ((trail.map Prod.snd).reverse ++ sets) (bs.reverse ++ und) session'.items.wishes := by
  induction repeated generalizing trail bs sets und with
  | never session =>
      obtain rfl : trail = [] := List.eq_nil_of_length_eq_zero all.symm
      cases rewinds
      refine ⟨.nil, ?_, replays⟩
      rw [List.nil_append] at done
      rw [← done]
      rfl
  | @once σ s c back session going later ih =>
      cases rewinds with
      | nil => cases all
      | @cons _ before after b command trail bs commands edit reached fits restored further =>
          have turned := undo_fits c done commands edit fits going
          have forth := fits.inverse
          have same := fits.amended_inverse
          rw [command.inverse_inverse] at forth same
          rw [← same] at reached replays
          rw [← turned.wishes] at restored forth further reached replays
          obtain ⟨restores, history, way⟩ := ih further (.cons commands edit forth reached replays)
            (Nat.succ.inj all) (congrArg History.done turned.history)
          refine ⟨.cons restored restores, ?_, ?_⟩
          · rw [history, turned.history]
            simp
          · simpa using way

/-- Redoing follows the way forth. -/
theorem Repeated.redo {again : List Wishes} {rest : List Batch}
    (repeated : Repeated .redo session again session') (replays : Replays sets bs session.items.wishes)
    (all : again.length = sets.length) (undone : session.history.undone = bs ++ rest)
    (room : session.history.done.length + sets.length ≤ max session.history.limit 1) :
    List.Forall₂ Restores again sets ∧
      session'.history = ⟨bs.reverse ++ session.history.done, rest, session.history.limit⟩ := by
  induction repeated generalizing sets bs with
  | never session =>
      obtain rfl : sets = [] := List.eq_nil_of_length_eq_zero all.symm
      cases replays
      refine ⟨.nil, ?_⟩
      rw [List.nil_append] at undone
      rw [← undone]
      rfl
  | @once σ s c again session going later ih =>
      cases replays with
      | nil => cases all
      | @cons _ after b command sets bs commands edit fits reached further =>
          rw [List.length_cons] at room
          have turned := redo_fits c undone (by omega) commands edit fits going
          rw [← turned.wishes] at reached further
          have room_left : (Operation.redo.run c s).session.history.done.length + sets.length ≤
              max (Operation.redo.run c s).session.history.limit 1 := by
            rw [turned.history]
            dsimp only
            rw [List.length_cons]
            omega
          obtain ⟨restores, history⟩ := ih further (Nat.succ.inj all)
            (congrArg History.undone turned.history) room_left
          refine ⟨.cons reached restores, ?_⟩
          rw [history, turned.history]
          simp

/-- Edits are exactly undoable. Undoing as many edits as were made leads, step by step, back
to what was wanted before each of them, and redoing them leads forth to what each of them
led to, until there is nothing left to redo. -/
theorem Edited.undo_redo {s t u : Session} {back again : List Wishes} (reached : first.Reached)
    (edited : Edited first trail s) (some_edit : trail ≠ [])
    (room : first.history.done.length + trail.length ≤ max first.history.limit 1)
    (undone : Repeated .undo s back t) (undone_all : back.length = trail.length)
    (redone : Repeated .redo t again u) (redone_all : again.length = trail.length) :
    List.Forall₂ Restores back (trail.map Prod.fst) ∧
      List.Forall₂ Restores again (trail.map Prod.snd).reverse ∧
      t.history.done = first.history.done ∧ u.history = s.history ∧ u.history.undone = [] := by
  obtain ⟨bs, traced⟩ := edited.traced reached room
  obtain ⟨restored, there, way⟩ := undone.undo (traced.rewinds _ (.refl _)) (.nil _) undone_all traced.done
  rw [List.append_nil, List.append_nil] at way
  have nothing := traced.undone some_edit
  have before : t.history.done = first.history.done := by
    rw [there]
  have waiting : t.history.undone = bs.reverse ++ [] := by
    rw [there, nothing]
  have room_again : t.history.done.length + ((trail.map Prod.snd).reverse).length ≤
      max t.history.limit 1 := by
    rw [there, traced.limit]
    simpa using room
  obtain ⟨reached_again, history⟩ := redone.redo way (by simpa using redone_all) waiting room_again
  have same : u.history = s.history := by
    rw [history, before, there, List.reverse_reverse, ← traced.done, ← nothing]
  exact ⟨restored, reached_again, before, same, same ▸ nothing⟩

/-- A session on two files in which nothing was done yet. -/
def sampleSitting : Sitting Unit :=
  let w := World.sample [("a", "first"), ("b", "second")]
  let session := ((start [.ofString "/w/a", .ofString "/w/b"] (.ofString "/w/undo") 4).run w).1
  ⟨session, w, (), {}⟩

/-- Nobody stops a plain conduct. -/
theorem Repeated.thrice (o : Operation) {s₀ s₁ s₂ s₃ : Sitting Unit} (first : o.run .plain s₀ = s₁)
    (second : o.run .plain s₁ = s₂) (third : o.run .plain s₂ = s₃) :
    Repeated o s₀.session
      [s₁.session.items.wishes, s₂.session.items.wishes, s₃.session.items.wishes] s₃.session := by
  subst first second third
  exact .once (c := .plain) rfl (.once (c := .plain) rfl (.once (c := .plain) rfl (.never _)))

/-- One destination is set, the files are to be read-only, and both are taken back at once. All
of that is undone and redone. -/
theorem undo_redo_reset :
    let lock : FileState → FileState :=
      fun state => { state with attributes := state.attributes.set Attributes.readonlyFlag true }
    let s₁ := Edit.run (.setDestination (.ofString "/w/a") (.ofString "/w/x")) .plain sampleSitting
    let s₂ := Edit.run (.restate fun _ => lock) .plain s₁
    let s₃ := Edit.run .reset .plain s₂
    let t₂ := Operation.undo.run .plain s₃
    let t₁ := Operation.undo.run .plain t₂
    let t₀ := Operation.undo.run .plain t₁
    let u₁ := Operation.redo.run .plain t₀
    let u₂ := Operation.redo.run .plain u₁
    let u₃ := Operation.redo.run .plain u₂
    List.Forall₂ Restores
        [t₂.session.items.wishes, t₁.session.items.wishes, t₀.session.items.wishes]
        [s₂.session.items.wishes, s₁.session.items.wishes, sampleSitting.session.items.wishes] ∧
      List.Forall₂ Restores
        [u₁.session.items.wishes, u₂.session.items.wishes, u₃.session.items.wishes]
        [s₁.session.items.wishes, s₂.session.items.wishes, s₃.session.items.wishes] := by
  intro lock s₁ s₂ s₃ t₂ t₁ t₀ u₁ u₂ u₃
  have reached : sampleSitting.session.Reached :=
    .start [.ofString "/w/a", .ofString "/w/b"] (.ofString "/w/undo") 4
      (World.sample [("a", "first"), ("b", "second")])
  have set : Edited sampleSitting.session
      [(sampleSitting.session.items.wishes, s₁.session.items.wishes)] s₁.session :=
    .made .start .plain (.setDestination (.ofString "/w/a") (.ofString "/w/x")) (by decide +kernel)
  have locked : Edited sampleSitting.session [(s₁.session.items.wishes, s₂.session.items.wishes),
      (sampleSitting.session.items.wishes, s₁.session.items.wishes)] s₂.session :=
    .made set .plain (.restate fun _ => lock) (by decide +kernel)
  have taken_back : Edited sampleSitting.session [(s₂.session.items.wishes, s₃.session.items.wishes),
      (s₁.session.items.wishes, s₂.session.items.wishes),
      (sampleSitting.session.items.wishes, s₁.session.items.wishes)] s₃.session :=
    .made locked .plain .reset (by decide +kernel)
  have undone := Repeated.thrice .undo (rfl : _ = t₂) (rfl : _ = t₁) (rfl : _ = t₀)
  have redone := Repeated.thrice .redo (rfl : _ = u₁) (rfl : _ = u₂) (rfl : _ = u₃)
  obtain ⟨back, again, -⟩ := taken_back.undo_redo reached (List.cons_ne_nil _ _) (by decide +kernel)
    undone rfl redone rfl
  exact ⟨back, again⟩

end Renumber.Session
