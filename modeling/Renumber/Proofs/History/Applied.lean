import Renumber.Proofs.History.Touches
import Renumber.Proofs.World.Sample

/-!
# What applying a state does

A state is applied to a regular file, or nothing becomes different. What is read afterwards has
the times of the state, if it has any, and the permission bits of the state or else those that
were there, with the write bits as the read-only attribute has them. So a state that was read
comes back when it is applied, whatever was applied in the meantime. Only a leap second is not
read as it was written: it is the first second after it.
-/

namespace Renumber

open Outcome
open Renumber.Time (Instant)

namespace FileState

variable {s : FileState} {w w' : World} {id : Nat} {stats : Stats} {m : UInt32}

/-! ## Write bits -/

theorem and_modeMask_and_writeBits (m : UInt32) : m &&& Disk.modeMask &&& writeBits = m &&& writeBits :=
  UInt32.and_assoc ..

theorem or_and (a b c : UInt32) : (a ||| b) &&& c = a &&& c ||| b &&& c :=
  UInt32.eq_of_toBitVec_eq BitVec.and_or_distrib_right

/-- Permission bits with the write bits as the read-only attribute has them. -/
def withWriteBits (readonly : Bool) (m : UInt32) : UInt32 :=
  if readonly then m &&& ~~~writeBits
  else if m &&& writeBits = 0 then m ||| Disk.ownerWrite
  else m

/-- Bits of a mode that are none of permissions make no difference. -/
theorem targetMode_and_modeMask (s : FileState) (old : UInt32) :
    s.targetMode old &&& Disk.modeMask =
      withWriteBits s.attributes.readonly (s.mode.getD old &&& Disk.modeMask) := by
  rw [targetMode, withWriteBits, and_modeMask_and_writeBits]
  generalize s.mode.getD old = m
  cases s.attributes.readonly with
  | true =>
      rw [if_pos rfl, if_pos rfl, UInt32.and_assoc, UInt32.and_assoc, UInt32.and_comm (~~~writeBits)]
  | false =>
      rw [if_neg Bool.false_ne_true, if_neg Bool.false_ne_true]
      by_cases unwritable : m &&& writeBits = 0
      · rw [if_pos (beq_iff_eq.2 unwritable), if_pos unwritable, or_and]
        rfl
      · rw [if_neg (mt beq_iff_eq.1 unwritable), if_neg unwritable]

/-- The read-only attribute is read off the write bits. -/
theorem withWriteBits_and_eq_zero (readonly : Bool) (m : UInt32) :
    withWriteBits readonly m &&& writeBits = 0 ↔ readonly = true := by
  rw [withWriteBits]
  cases readonly with
  | true =>
      have none : ~~~writeBits &&& writeBits = 0 := by decide
      rw [if_pos rfl, UInt32.and_assoc, none, UInt32.and_zero]
      exact iff_of_true rfl rfl
  | false =>
      refine iff_of_false ?_ Bool.false_ne_true
      rw [if_neg Bool.false_ne_true]
      split
      · next unwritable =>
        rw [or_and, unwritable]
        decide
      · next writable => exact writable

/-! ## What is read -/

/-- Only a leap second carries over. -/
theorem carry_of_lt {t : Instant} (ordinary : t.nanos < Time.nanosPerSecond) : t.carry = t := by
  have whole : (t.nanos : Int) / Time.nanosPerSecond = 0 :=
    Int.ediv_eq_zero_of_lt (Int.natCast_nonneg _) (Int.ofNat_lt.2 ordinary)
  rw [Instant.carry, whole, Int.add_zero, Nat.mod_eq_of_lt ordinary]

/-- What is read before a state is applied, and what is read after. -/
structure Applies (s before after : FileState) : Prop where
  path : after.path = before.path
  /-- A leap second counts as the first second after it. -/
  modified : after.modified = (s.modified.map Instant.carry).or before.modified
  accessed : after.accessed = (s.accessed.map Instant.carry).or before.accessed
  created : after.created = before.created
  readonly : after.attributes.readonly = s.attributes.readonly
  mode : ∃ old, before.mode = some old ∧ after.mode =
    some (withWriteBits s.attributes.readonly (s.mode.getD old &&& Disk.modeMask))

theorem applies_written (s : FileState) (stats : Stats) :
    s.Applies (ofStats s.path stats) (ofStats s.path (s.written stats)) where
  path := rfl
  modified := by
    rw [ofStats, written]
    cases s.modified <;> rfl
  accessed := by
    rw [ofStats, written]
    cases s.accessed <;> rfl
  created := rfl
  readonly := by
    rw [readonly_ofStats, written, Bool.eq_iff_iff, beq_iff_eq, targetMode_and_modeMask]
    exact withWriteBits_and_eq_zero _ _
  mode := ⟨stats.mode, rfl, congrArg some (targetMode_and_modeMask s stats.mode)⟩

/-! ## Success and failure -/

theorem run_read_eq_ok {p : Path} {shown : FileState} : (read p).run.run w = (.ok shown, w) ↔
    ∃ stats, w.disk.readStats w.cwd p = .ok stats ∧ shown = ofStats p stats := by
  rw [run_read]
  cases w.disk.readStats w.cwd p with
  | error fault =>
      refine iff_of_false (fun read => ?_) fun ⟨stats, read, _⟩ => ?_
      · cases read
      · cases read
  | ok stats =>
      constructor
      · intro read
        cases read
        exact ⟨stats, rfl, rfl⟩
      · rintro ⟨stats', read, rfl⟩
        cases read
        rfl

theorem run_read_of_dataOf? {p : Path} {data : FileData} (leads : w.disk.dataOf? w.cwd p = some id)
    (there : w.disk.file? id = some data) : (read p).run.run w = (.ok (ofStats p data.stats), w) := by
  obtain ⟨data', there', read⟩ := Disk.readStats_of_dataOf? leads
  obtain rfl := Option.some.inj (there.symm.trans there')
  exact run_read_eq_ok.2 ⟨data.stats, read, rfl⟩

/-- What can be read does not depend on more than what stands at locations and in files. -/
theorem run_read_of_same {p : Path} {shown : FileState} (cwd : w'.cwd = w.cwd)
    (get? : ∀ loc, w'.disk.get? loc = w.disk.get? loc)
    (file? : ∀ id, w'.disk.file? id = w.disk.file? id) (before : (read p).run.run w = (.ok shown, w)) : (read p).run.run w' = (.ok shown, w') := by
  have stats? : ∀ loc, w'.disk.stats? loc = w.disk.stats? loc := fun loc => by
    simp only [Disk.stats?, get?, file?]
  obtain ⟨stats, read, rfl⟩ := run_read_eq_ok.1 before
  obtain ⟨loc, e, found, known⟩ := Disk.readStats_eq_ok.1 read
  refine run_read_eq_ok.2 ⟨stats, ?_, rfl⟩
  rw [cwd]
  exact Disk.readStats_eq_ok.2
    ⟨loc, e, (Disk.findEntry_of_get? get?).2 found, (stats? loc).trans known⟩

/-- A state is applied where its path leads to a regular file, and to nothing else. -/
theorem apply_cases (s : FileState) (proper : w.disk.Proper) :
    (∃ id data w', w.disk.dataOf? w.cwd s.path = some id ∧ w.disk.file? id = some data ∧
      s.apply.run.run w = (.ok (), w') ∧ World.Restats id s.written w w') ∨
    (w.disk.dataOf? w.cwd s.path = none ∧ ∃ fault w', s.apply.run.run w = (.error fault, w') ∧
      w'.cwd = w.cwd ∧ (∀ loc, w'.disk.get? loc = w.disk.get? loc) ∧
      ∀ id, w'.disk.file? id = w.disk.file? id) := by
  cases leads : w.disk.dataOf? w.cwd s.path with
  | none => exact .inr ⟨rfl, run_apply_of_none proper.folder leads⟩
  | some id =>
      obtain ⟨data, there, -⟩ := Disk.readStats_of_dataOf? leads
      obtain ⟨w', done, restats⟩ := run_apply_of_dataOf? leads
      exact .inl ⟨id, data, w', rfl, there, done, restats⟩

/-! ## States that were read -/

/-- Applying states changes nothing but stats. -/
theorem altered_applied {base : World} (proper : base.disk.Proper)
    (altered : World.Altered ∅ Set.univ base w) (s : FileState) :
    World.Altered ∅ Set.univ base (s.apply.run.run w).2 := by
  cases leads : base.disk.dataOf? base.cwd s.path with
  | none =>
      obtain ⟨fault, w', failed, after⟩ := altered.apply_of_none proper leads
      rwa [failed]
  | some id =>
      obtain ⟨w', done, after⟩ := altered.apply proper leads
      rw [done]
      exact after.mono (Set.subset_univ _)

theorem altered_foldl {base : World} (proper : base.disk.Proper)
    (altered : World.Altered ∅ Set.univ base w) (states : List FileState) :
    World.Altered ∅ Set.univ base (states.foldl (fun w s => (s.apply.run.run w).2) w) := by
  induction states generalizing w with
  | nil => exact altered
  | cons s states ih => exact ih (altered_applied proper altered s)

/-- A state that was read is read again when it was applied, whatever was applied in between. -/
theorem run_read_applied {path : Path} {original : FileState} (proper : w.disk.Proper)
    (shown : (read path).run.run w = (.ok original, w))
    (altered : World.Altered ∅ Set.univ w w') :
    let w'' := (original.apply.run.run w').2
    (read path).run.run w'' = (.ok original, w'') ∧
      ((w.disk.dataOf? w.cwd path).isSome = true → original.apply.run.run w' = (.ok (), w'')) := by
  intro w''
  obtain ⟨stats, read, rfl⟩ := run_read_eq_ok.1 shown
  cases leads : w.disk.dataOf? w.cwd path with
  | none =>
      have missed : w.disk.dataOf? w.cwd (ofStats path stats).path = none := leads
      obtain ⟨fault, w₂, failed, after⟩ := altered.apply_of_none proper missed
      obtain rfl : w'' = w₂ := congrArg Prod.snd failed
      exact ⟨run_read_eq_ok.2 ⟨stats, after.readStats_of_none leads read, rfl⟩, nofun⟩
  | some id =>
      have known : w.disk.dataOf? w.cwd (ofStats path stats).path = some id := leads
      obtain ⟨w₂, done, after⟩ := altered.apply proper known
      obtain rfl : w'' = w₂ := congrArg Prod.snd done
      refine ⟨?_, fun _ => done⟩
      obtain ⟨a, there, read_a⟩ := Disk.readStats_of_dataOf? leads
      obtain ⟨b, there', read_b⟩ := Disk.readStats_of_dataOf? ((after.dataOf? path).trans leads)
      obtain rfl : stats = a.stats := Except.ok.inj (read.symm.trans read_a)
      have untouched : id ∉ w.touchedBy (ofStats path a.stats) id Set.univ := by
        rw [World.mem_touchedBy_self, not_not]
        exact ⟨a.stats, read, rfl⟩
      have changed := after.file? id
      rw [there, there'] at changed
      cases changed with
      | some changed =>
          have mode := changed.mode untouched
          have modified := changed.modified untouched (Set.notMem_empty id)
          have accessed := changed.accessed untouched
          refine run_read_eq_ok.2 ⟨b.stats, read_b, ?_⟩
          rw [ofStats, ofStats, mode, modified, accessed, changed.created]

/-! ## The meaning of applying -/

/-- What applying a state means, and that it can be taken back. -/
theorem apply_means (w : World) (s : FileState) (proper : w.disk.Proper) :
    (∀ t : Instant, t.nanos < Time.nanosPerSecond → t.carry = t) ∧
    (∀ w', s.apply.run.run w = (.ok (), w') → ∃ id before after,
      w.disk.dataOf? w.cwd s.path = some id ∧ (read s.path).run.run w = (.ok before, w) ∧
      (read s.path).run.run w' = (.ok after, w') ∧ s.Applies before after ∧ w'.cwd = w.cwd ∧
      (∀ loc, w'.disk.get? loc = w.disk.get? loc) ∧
      (∀ other, other ≠ id → w'.disk.file? other = w.disk.file? other) ∧
      (w'.disk.file? id).map FileData.content = (w.disk.file? id).map FileData.content) ∧
    (∀ fault w', s.apply.run.run w = (.error fault, w') → w.disk.dataOf? w.cwd s.path = none ∧
      w'.cwd = w.cwd ∧ (∀ loc, w'.disk.get? loc = w.disk.get? loc) ∧
      (∀ id, w'.disk.file? id = w.disk.file? id) ∧
      ∀ p shown, (read p).run.run w = (.ok shown, w) → (read p).run.run w' = (.ok shown, w')) ∧
    ∀ path original (between : List FileState), (read path).run.run w = (.ok original, w) →
      let w₁ := between.foldl (fun w s => (s.apply.run.run w).2) w
      let w₂ := (original.apply.run.run w₁).2
      (read path).run.run w₂ = (.ok original, w₂) ∧
        ((w.disk.dataOf? w.cwd path).isSome = true → original.apply.run.run w₁ = (.ok (), w₂)) := by
  refine ⟨fun t => carry_of_lt, fun w' done => ?_, fun fault w' failed => ?_,
    fun path original between shown => ?_⟩
  · obtain ⟨id, data, w'', leads, there, applied, restats⟩ | ⟨-, _, _, failed, -⟩ := apply_cases s proper
    · obtain rfl := (Prod.mk.inj (done.symm.trans applied)).2
      have own := restats.file? id
      rw [if_pos rfl, there, Option.map_some] at own
      have leads' := (restats.dataOf? s.path).trans leads
      refine ⟨id, _, _, leads, run_read_of_dataOf? leads there, run_read_of_dataOf? leads' own,
        applies_written s data.stats, restats.cwd, restats.get?, fun other different => ?_, ?_⟩
      · rw [restats.file?, if_neg different]
      · rw [own, there]
        rfl
    · cases done.symm.trans failed
  · obtain ⟨_, _, _, -, -, applied, -⟩ | ⟨leads, _, w'', failed', cwd, get?, file?⟩ := apply_cases s proper
    · cases failed.symm.trans applied
    · obtain rfl := (Prod.mk.inj (failed.symm.trans failed')).2
      exact ⟨leads, cwd, get?, file?, fun p shown => run_read_of_same cwd get? file?⟩
  · exact run_read_applied proper shown (altered_foldl proper (.refl w) between)

/-- A state that says of a file that it was modified in a leap second. -/
def leapState : FileState :=
  { empty (.ofString "/w/a") with modified := some ⟨1483228799, 1000000000⟩, mode := some 0o100444 }

/-- It is read as modified in the second after that, and the owner may write to the file. -/
theorem apply_means_leap :
    let w := World.sample [("a", "text")]
    w.disk.Proper ∧ ∃ after, (read leapState.path).run.run (leapState.apply.run.run w).2 =
      (.ok after, (leapState.apply.run.run w).2) ∧
      after.modified = some ⟨1483228800, 0⟩ ∧ after.mode = some 0o644 := by
  intro w
  have proper : w.disk.Proper := by decide +kernel
  have done : leapState.apply.run.run w = (.ok (), (leapState.apply.run.run w).2) :=
    Prod.ext (by decide +kernel) rfl
  obtain ⟨id, before, after, -, -, shown, applies, -⟩ :=
    (apply_means w leapState proper).2.1 _ done
  obtain ⟨old, -, mode⟩ := applies.mode
  have left : withWriteBits false (0o100444 &&& Disk.modeMask) = 0o644 := by decide
  exact ⟨proper, after, shown, applies.modified, mode.trans (congrArg some left)⟩

/-- A leap second is not read as it was written. -/
theorem not_modified_leap :
    ¬∀ (w w' : World) (s : FileState), w.disk.Proper → s.apply.run.run w = (.ok (), w') →
      ∃ after, (read s.path).run.run w' = (.ok after, w') ∧
        ∀ t, s.modified = some t → after.modified = some t := by
  intro always
  let w := World.sample [("a", "text")]
  let w' := (leapState.apply.run.run w).2
  have done : leapState.apply.run.run w = (.ok (), w') := Prod.ext (by decide +kernel) rfl
  obtain ⟨after, shown, same⟩ := always w w' leapState (by decide +kernel) done
  have modified := same _ rfl
  have differs : ((read leapState.path).run.run w').1.toOption.bind FileState.modified ≠
      leapState.modified := by decide +kernel
  rw [shown] at differs
  exact differs modified

end FileState

end Renumber
