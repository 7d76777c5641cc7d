import Mathlib.Data.List.TakeWhile
import Renumber.Pattern.Counter
import Renumber.Proofs.Text.Digit

/-!
# Counters are read as they are written

A written counter is blanks, digits that stand for its number, and blanks again. Each way
to read a counter finds these three stretches at the front of a text. A counter that was
written is among the ways to read it; only those that go on into digits of the text behind
it are tried first.
-/

namespace Renumber.Pattern

/-! ## Digits of a base -/

namespace Radix

variable {r : Radix}

theorem one_lt_base (r : Radix) : 1 < r.base := by
  cases r <;> decide

theorem base_le_sixteen (r : Radix) : r.base ≤ 16 := by
  cases r <;> decide

theorem digits_eq (r : Radix) (n : Nat) :
    ∃ f : Char → Char, r.digits n = (Nat.toDigits r.base n).map f ∧
      ∀ d < r.base, Text.digit? r.base (f (Nat.digitChar d)) = some d := by
  have either : ∀ d < r.base, _ := fun d => Text.digit?_digitChar r.base_le_sixteen
  cases r with
  | upperHex => exact ⟨Char.toUpper, rfl, fun d small => (either d small).2⟩
  | _ => exact ⟨id, (List.map_id _).symm, fun d small => (either d small).1⟩

theorem digits_ne_nil (r : Radix) (n : Nat) : r.digits n ≠ [] := by
  obtain ⟨f, same, -⟩ := r.digits_eq n
  rw [same]
  intro none
  exact Nat.toDigits_ne_nil (List.map_eq_nil_iff.1 none)

theorem isDigit_of_mem_digits {n : Nat} {c : Char} (member : c ∈ r.digits n) :
    r.isDigit c = true := by
  obtain ⟨f, same, known⟩ := r.digits_eq n
  rw [same, List.mem_map] at member
  obtain ⟨d, member, rfl⟩ := member
  obtain ⟨d, small, rfl⟩ := Text.exists_of_mem_toDigits r.one_lt_base member
  rw [isDigit, Text.isDigit, known d small]
  rfl

/-- The digits of a number stand for it. -/
theorem value_digits (r : Radix) (n : Nat) : r.value (r.digits n) = n := by
  obtain ⟨f, same, known⟩ := r.digits_eq n
  rw [value, same, Text.numberIn_map, Text.numberIn_toDigits r.one_lt_base r.base_le_sixteen]
  intro c member
  obtain ⟨d, small, rfl⟩ := Text.exists_of_mem_toDigits r.one_lt_base member
  rw [known d small, (Text.digit?_digitChar r.base_le_sixteen small).1]

theorem isDigit_blank (r : Radix) : r.isDigit ' ' = false := by
  cases r <;> decide

theorem isDigit_zero (r : Radix) : r.isDigit '0' = true := by
  cases r <;> decide

theorem isDigit_dot (r : Radix) : r.isDigit '.' = false := by
  cases r <;> decide

end Radix

/-! ## Written counters -/

namespace CounterStyle

variable {style : CounterStyle} {n : Nat} {lead digits trail : List Char}

/-- Blanks can stand in front of the digits. -/
def padsFront (style : CounterStyle) : Bool :=
  !(style.zeroPad || style.leftJustify)

theorem leadingBlanks_eq (style : CounterStyle) (s : List Char) : style.leadingBlanks s =
    if style.padsFront then (s.takeWhile (· == ' ')).length else 0 := by
  rw [leadingBlanks, padsFront]
  cases style.zeroPad || style.leftJustify <;> rfl

/-- Blanks, digits that stand for a number, and blanks, where the style allows them. -/
structure Written (style : CounterStyle) (n : Nat) (lead digits trail : List Char) : Prop where
  lead_blank : ∀ c ∈ lead, c = ' '
  lead_nil : style.padsFront = false → lead = []
  some_digit : digits ≠ []
  each_digit : ∀ c ∈ digits, style.radix.isDigit c = true
  value : style.radix.value digits = n
  trail_blank : ∀ c ∈ trail, c = ' '
  trail_nil : style.leftJustify = false → trail = []

theorem exists_written (style : CounterStyle) (n : Nat) :
    ∃ lead digits trail, style.render n = lead ++ digits ++ trail ∧
      style.Written n lead digits trail := by
  have own : ∀ c ∈ style.radix.digits n, style.radix.isDigit c = true := by
    intro c member
    exact Radix.isDigit_of_mem_digits member
  have blanks : ∀ pad, ∀ c ∈ List.replicate pad ' ', c = ' ' := by
    intro pad c member
    exact List.eq_of_mem_replicate member
  have none_blank : ∀ c ∈ ([] : List Char), c = ' ' := fun c member => absurd member List.not_mem_nil
  rw [render]
  cases left : style.leftJustify with
  | true =>
      refine ⟨[], style.radix.digits n, _, rfl, none_blank, fun _ => rfl, ?_, own, ?_, blanks _, ?_⟩
      · exact Radix.digits_ne_nil _ n
      · exact Radix.value_digits _ n
      · intro right
        rw [left] at right
        cases right
  | false =>
      cases zeros : style.zeroPad with
      | true =>
          refine ⟨[], List.replicate (style.width - (style.radix.digits n).length) '0' ++
            style.radix.digits n, [], (List.append_nil _).symm, none_blank, fun _ => rfl, ?_, ?_, ?_,
            none_blank, fun _ => rfl⟩
          · simp [Radix.digits_ne_nil]
          · intro c member
            rw [List.mem_append] at member
            obtain zero | digit := member
            · rw [List.eq_of_mem_replicate zero]
              exact Radix.isDigit_zero _
            · exact own c digit
          · rw [Radix.value, Text.numberIn_zeros]
            exact Radix.value_digits _ n
      | false =>
          refine ⟨_, style.radix.digits n, [], (List.append_nil _).symm, blanks _, ?_, ?_, own, ?_,
            none_blank, fun _ => rfl⟩
          · intro never
            rw [padsFront, left, zeros] at never
            cases never
          · exact Radix.digits_ne_nil _ n
          · exact Radix.value_digits _ n

namespace Written

/-- More blanks in front, where the style allows them. -/
theorem cons_blanks (written : style.Written n lead digits trail) {blanks : List Char}
    (pads : style.padsFront = true) (each : ∀ c ∈ blanks, c = ' ') :
    style.Written n (blanks ++ lead) digits trail := by
  refine { written with lead_blank := ?_, lead_nil := ?_ }
  · intro c member
    exact (List.mem_append.1 member).elim (each c) (written.lead_blank c)
  · intro never
    rw [pads] at never
    cases never

/-- More blanks behind, where the style allows them. -/
theorem append_blanks (written : style.Written n lead digits trail) {blanks : List Char}
    (justified : style.leftJustify = true) (each : ∀ c ∈ blanks, c = ' ') :
    style.Written n lead digits (trail ++ blanks) := by
  refine { written with trail_blank := ?_, trail_nil := ?_ }
  · intro c member
    exact (List.mem_append.1 member).elim (written.trail_blank c) (each c)
  · intro never
    rw [justified] at never
    cases never

theorem exists_head (written : style.Written n lead digits trail) (rest : List Char) :
    ∃ c more, digits ++ rest = c :: more ∧ style.radix.isDigit c = true ∧ c ≠ ' ' := by
  obtain ⟨c, more, shape⟩ := List.exists_cons_of_ne_nil written.some_digit
  have digit : style.radix.isDigit c = true := by
    apply written.each_digit
    rw [shape]
    exact List.mem_cons_self
  refine ⟨c, more ++ rest, by rw [shape]; rfl, digit, ?_⟩
  intro blank
  rw [blank, Radix.isDigit_blank] at digit
  cases digit

end Written

/-! ## The blanks of a reading -/

theorem takeWhile_blanks {blanks rest : List Char} (each : ∀ c ∈ blanks, c = ' ')
    (ends : rest.head? ≠ some ' ') : (blanks ++ rest).takeWhile (· == ' ') = blanks := by
  refine Text.takeWhile_run (fun c member => beq_iff_eq.2 (each c member)) fun c first => ?_
  rw [beq_eq_false_iff_ne]
  rintro rfl
  exact ends first

/-- A text without the blanks that it begins with. -/
def withoutBlanks (s : List Char) : List Char :=
  s.dropWhile (· == ' ')

theorem head?_withoutBlanks (s : List Char) : (withoutBlanks s).head? ≠ some ' ' := by
  have first := List.head?_dropWhile_not (· == ' ') s
  intro blank
  rw [withoutBlanks] at blank
  rw [blank] at first
  exact absurd first (by decide)

theorem withoutBlanks_eq {s : List Char} (apart : s.head? ≠ some ' ') : withoutBlanks s = s := by
  cases s with
  | nil => rfl
  | cons c s =>
      rw [withoutBlanks, List.dropWhile_cons_of_neg]
      exact fun blank => apart (congrArg some (beq_iff_eq.1 blank))

/-- The blanks that a text begins with, and the others. -/
theorem exists_blanks (s : List Char) :
    ∃ blanks, s = blanks ++ withoutBlanks s ∧ s.takeWhile (· == ' ') = blanks ∧ ∀ c ∈ blanks, c = ' ' := by
  refine ⟨_, List.takeWhile_append_dropWhile.symm, rfl, fun c member => ?_⟩
  simpa using List.mem_takeWhile_imp member

theorem leadingBlanks_written (written : style.Written n lead digits trail) (rest : List Char) :
    style.leadingBlanks (lead ++ (digits ++ rest)) = lead.length := by
  rw [leadingBlanks_eq]
  cases pads : style.padsFront with
  | true =>
      rw [if_pos rfl]
      obtain ⟨c, more, shape, -, printed⟩ := written.exists_head rest
      rw [shape, takeWhile_blanks written.lead_blank]
      simpa using printed
  | false =>
      rw [written.lead_nil pads]
      rfl

theorem trailingBlanks_written (written : style.Written n lead digits trail) {rest : List Char}
    (apart : style.leftJustify = true → rest.head? ≠ some ' ') :
    style.trailingBlanks (trail ++ rest) = trail.length := by
  rw [trailingBlanks]
  cases left : style.leftJustify with
  | true =>
      rw [if_pos rfl, takeWhile_blanks written.trail_blank (apart left)]
  | false =>
      rw [written.trail_nil left]
      rfl

/-- What is dropped as blanks are blanks, and only where they are allowed. -/
theorem exists_dropped (allowed : Bool) (s : List Char) :
    ∃ dropped, s = dropped ++ s.drop (if allowed then (s.takeWhile (· == ' ')).length else 0) ∧
      dropped.length = (if allowed then (s.takeWhile (· == ' ')).length else 0) ∧
      (∀ c ∈ dropped, c = ' ') ∧ (allowed = false → dropped = []) := by
  cases allowed with
  | true =>
      obtain ⟨blanks, parted, taken, each⟩ := exists_blanks s
      refine ⟨blanks, ?_, congrArg List.length taken.symm, each, fun never => by cases never⟩
      rw [if_pos rfl, taken]
      exact (List.prefix_iff_eq_append.1 ⟨_, parted.symm⟩).symm
  | false => exact ⟨[], rfl, rfl, fun c member => absurd member List.not_mem_nil, fun _ => rfl⟩

theorem leadingBlanks_spec (style : CounterStyle) (s : List Char) :
    ∃ lead, s = lead ++ s.drop (style.leadingBlanks s) ∧ lead.length = style.leadingBlanks s ∧
      (∀ c ∈ lead, c = ' ') ∧ (style.padsFront = false → lead = []) := by
  rw [leadingBlanks_eq]
  exact exists_dropped style.padsFront s

theorem trailingBlanks_spec (style : CounterStyle) (s : List Char) :
    ∃ trail, s = trail ++ s.drop (style.trailingBlanks s) ∧
      trail.length = style.trailingBlanks s ∧ (∀ c ∈ trail, c = ' ') ∧
      (style.leftJustify = false → trail = []) := by
  rw [trailingBlanks]
  exact exists_dropped style.leftJustify s

/-! ## Ways to read a counter -/

/-- The counter that the first `i + 1` digits of a run make, if it is not too great. -/
def readingOf? (style : CounterStyle) (blanks : Nat) (body : List Char) (i : Nat) :
    Option (Nat × Nat) :=
  let value := style.radix.value (body.take (i + 1))
  if value ≤ maxCounter then
    some (value, blanks + (i + 1) + style.trailingBlanks (body.drop (i + 1)))
  else none

theorem readings_eq {s body : List Char} {blanks : Nat} (dropped : style.leadingBlanks s = blanks)
    (left : s.drop blanks = body) : style.readings s =
      (List.range (body.takeWhile style.radix.isDigit).length).reverse.filterMap
        (style.readingOf? blanks body) := by
  subst dropped left
  rfl

/-- A reading of `i + 1` digits takes a written counter with that many from the front. -/
theorem exists_of_readingOf? {s : List Char} {i value used : Nat}
    (inside : i < ((s.drop (style.leadingBlanks s)).takeWhile style.radix.isDigit).length)
    (found : style.readingOf? (style.leadingBlanks s) (s.drop (style.leadingBlanks s)) i =
      some (value, used)) : ∃ lead digits trail, style.Written value lead digits trail ∧
      s = lead ++ digits ++ trail ++ s.drop used ∧ used = (lead ++ digits ++ trail).length ∧
      digits.length = i + 1 := by
  obtain ⟨lead, parted, long, lead_blank, lead_nil⟩ := leadingBlanks_spec style s
  rw [← long] at parted inside found
  obtain ⟨body, left⟩ : ∃ body, s.drop lead.length = body := ⟨_, rfl⟩
  rw [left] at parted inside found
  obtain ⟨trail, rest, longer, trail_blank, trail_nil⟩ := trailingBlanks_spec style (body.drop (i + 1))
  have enough : (body.take (i + 1)).length = i + 1 :=
    List.length_take_of_le (Nat.le_trans inside (List.takeWhile_prefix _).length_le)
  rw [readingOf?] at found
  split at found
  next small =>
    rw [Option.some.injEq, Prod.mk.injEq] at found
    obtain ⟨rfl, rfl⟩ := found
    have run : body.take (i + 1) <+: body.takeWhile style.radix.isDigit := by
      apply List.prefix_of_prefix_length_le (List.take_prefix _ _) (List.takeWhile_prefix _)
      exact Nat.le_trans (List.length_take_le _ _) inside
    refine ⟨lead, body.take (i + 1), trail, ⟨lead_blank, lead_nil, ?_, ?_, rfl, trail_blank, trail_nil⟩,
      ?_, ?_, enough⟩
    · intro none
      rw [none] at enough
      cases enough
    · intro c member
      exact List.mem_takeWhile_imp (run.subset member)
    · have behind : s.drop (lead.length + (i + 1) + style.trailingBlanks (body.drop (i + 1))) =
          (body.drop (i + 1)).drop (style.trailingBlanks (body.drop (i + 1))) := by
        rw [← left, List.drop_drop, List.drop_drop]
      rw [behind, List.append_assoc, List.append_assoc, ← rest, List.take_append_drop]
      exact parted
    · rw [List.length_append, List.length_append, enough, longer]
  next => cases found

/-- A way to read a counter takes some of the digits in front. -/
theorem exists_readingOf? {s : List Char} {reading : Nat × Nat} (member : reading ∈ style.readings s) :
    ∃ i, i < ((s.drop (style.leadingBlanks s)).takeWhile style.radix.isDigit).length ∧
      style.readingOf? (style.leadingBlanks s) (s.drop (style.leadingBlanks s)) i = some reading := by
  rw [readings_eq rfl rfl, List.mem_filterMap] at member
  obtain ⟨i, inside, found⟩ := member
  exact ⟨i, List.mem_range.1 (List.mem_reverse.1 inside), found⟩

/-- Each way to read a counter finds a written one in front. -/
theorem exists_of_mem_readings {s : List Char} {value used : Nat}
    (member : (value, used) ∈ style.readings s) : ∃ lead digits trail,
      style.Written value lead digits trail ∧ s = lead ++ digits ++ trail ++ s.drop used := by
  obtain ⟨i, inside, found⟩ := exists_readingOf? member
  obtain ⟨lead, digits, trail, written, parted, -⟩ := exists_of_readingOf? inside found
  exact ⟨lead, digits, trail, written, parted⟩

/-- A counter that can be padded behind takes all the blanks that follow its digits. -/
theorem head?_drop_of_mem_readings {s : List Char} {value used : Nat} (justified : style.leftJustify = true)
    (member : (value, used) ∈ style.readings s) : (s.drop used).head? ≠ some ' ' := by
  obtain ⟨i, -, found⟩ := exists_readingOf? member
  rw [readingOf?] at found
  split at found
  next =>
    obtain ⟨-, rfl⟩ := Prod.mk.inj (Option.some.inj found)
    generalize style.leadingBlanks s = blanks
    obtain ⟨left, behind⟩ : ∃ left, (s.drop blanks).drop (i + 1) = left := ⟨_, rfl⟩
    have cut : s.drop (blanks + (i + 1) + style.trailingBlanks left) = left.drop (style.trailingBlanks left) := by
      rw [← behind, List.drop_drop, List.drop_drop]
    obtain ⟨blanks, parted, taken, -⟩ := exists_blanks left
    rw [behind, cut, trailingBlanks, if_pos justified, taken, parted, List.drop_left]
    exact head?_withoutBlanks left
  next => cases found

/-- The first character of a text that is no blank. -/
theorem exists_printed {v : List Char} (printed : ∃ c ∈ v, c ≠ ' ') :
    ∃ lead c more, v = lead ++ c :: more ∧ (∀ b ∈ lead, b = ' ') ∧ c ≠ ' ' := by
  induction v with
  | nil =>
      obtain ⟨c, never, -⟩ := printed
      cases never
  | cons a v ih =>
      by_cases blank : a = ' '
      · obtain ⟨c, member, ink⟩ := printed
        have later : c ∈ v := (List.mem_cons.1 member).resolve_left fun same => ink (same.trans blank)
        obtain ⟨lead, c, more, rfl, blanks, ink⟩ := ih ⟨c, later, ink⟩
        exact ⟨a :: lead, c, more, rfl, List.forall_mem_cons.2 ⟨blank, blanks⟩, ink⟩
      · exact ⟨[], a, v, rfl, fun b never => absurd never List.not_mem_nil, blank⟩

/-- A text that does not start with a digit, blanks apart where they can be padding, holds
no counter in front. -/
theorem readings_eq_nil {v : List Char} (rest : List Char) (some_char : v ≠ [])
    (plain : ∀ c ∈ v, style.radix.isDigit c = false)
    (stuck : style.padsFront = true → ∃ c ∈ v, c ≠ ' ') : style.readings (v ++ rest) = [] := by
  have stops : ∃ lead c more, v = lead ++ c :: more ∧
      style.leadingBlanks (v ++ rest) = lead.length := by
    rw [leadingBlanks_eq]
    cases pads : style.padsFront with
    | true =>
        obtain ⟨lead, c, more, rfl, blanks, printed⟩ := exists_printed (stuck pads)
        refine ⟨lead, c, more, rfl, ?_⟩
        rw [if_pos rfl, List.append_assoc, takeWhile_blanks blanks]
        intro blank
        exact printed (Option.some.inj blank)
    | false =>
        obtain ⟨c, more, shape⟩ := List.exists_cons_of_ne_nil some_char
        exact ⟨[], c, more, shape, rfl⟩
  obtain ⟨lead, c, more, rfl, dropped⟩ := stops
  have left : (lead ++ c :: more ++ rest).drop lead.length = c :: (more ++ rest) := by
    rw [List.append_assoc, List.drop_left]
    rfl
  have digitless : style.radix.isDigit c = false :=
    plain c (List.mem_append_right _ List.mem_cons_self)
  rw [readings_eq dropped left, List.takeWhile_cons, digitless]
  rfl

/-- Digits are lost when something is dropped from a run of digits. -/
theorem countP_drop_lt {p : Char → Bool} {rest : List Char} {taken : Nat} (some_char : 0 < taken)
    (run : 0 < (rest.takeWhile p).length) : (rest.drop taken).countP p < rest.countP p := by
  cases rest with
  | nil => cases run
  | cons c rest =>
      obtain ⟨taken, rfl⟩ := Nat.exists_eq_succ_of_ne_zero some_char.ne'
      cases digit : p c with
      | false =>
          rw [List.takeWhile_cons, digit] at run
          cases run
      | true =>
          rw [List.drop_succ_cons, List.countP_cons_of_pos digit]
          exact Nat.lt_succ_of_le ((List.drop_sublist _ _).countP_le)

/-- A written counter is among the ways to read it. Those before it go on into digits
behind it. -/
theorem readings_written (written : style.Written n lead digits trail) (small : n ≤ maxCounter)
    {rest : List Char} (apart : style.leftJustify = true → rest.head? ≠ some ' ') :
    ∃ longer shorter, style.readings (lead ++ digits ++ trail ++ rest) =
        longer ++ (n, (lead ++ digits ++ trail).length) :: shorter ∧
      ∀ reading ∈ longer,
        ((lead ++ digits ++ trail ++ rest).drop reading.2).countP style.radix.isDigit <
          rest.countP style.radix.isDigit := by
  have left : (lead ++ digits ++ trail ++ rest).drop lead.length = digits ++ (trail ++ rest) := by
    simp
  have blanks : style.leadingBlanks (lead ++ digits ++ trail ++ rest) = lead.length := by
    rw [List.append_assoc, List.append_assoc]
    exact leadingBlanks_written written _
  have run : (digits ++ (trail ++ rest)).takeWhile style.radix.isDigit =
      digits ++ (trail ++ rest).takeWhile style.radix.isDigit :=
    List.takeWhile_append_of_pos written.each_digit
  obtain ⟨last, size⟩ : ∃ last, digits.length = last + 1 :=
    Nat.exists_eq_succ_of_ne_zero (mt List.length_eq_zero_iff.1 written.some_digit)
  have own : style.readingOf? lead.length (digits ++ (trail ++ rest)) last =
      some (n, (lead ++ digits ++ trail).length) := by
    rw [readingOf?, ← size, List.take_left, List.drop_left, written.value,
      trailingBlanks_written written apart, if_pos small, List.length_append, List.length_append]
  rw [readings_eq blanks left, run, List.length_append, size, List.range_add, List.reverse_append,
    List.filterMap_append, List.range_succ, List.reverse_append, List.reverse_singleton,
    List.singleton_append, List.filterMap_cons_some own]
  refine ⟨_, _, rfl, ?_⟩
  rintro ⟨value, used⟩ member
  rw [List.mem_filterMap] at member
  obtain ⟨i, inside, found⟩ := member
  rw [List.mem_reverse, List.mem_map] at inside
  obtain ⟨extra, inside, rfl⟩ := inside
  rw [List.mem_range] at inside
  -- A longer run leaves no room for blanks behind the digits.
  have bare : trail = [] := by
    cases trail with
    | nil => rfl
    | cons c trail =>
        rw [List.cons_append, written.trail_blank c List.mem_cons_self, List.takeWhile_cons,
          Radix.isDigit_blank] at inside
        cases inside
  subst bare
  have used_eq : used = lead.length + (digits.length + (extra + 1 + (used - (lead ++ digits).length - (extra + 1)))) := by
    rw [readingOf?] at found
    split at found
    · rw [Option.some.injEq, Prod.mk.injEq] at found
      rw [List.length_append, ← found.2]
      omega
    · cases found
  show List.countP _ (List.drop used _) < _
  rw [used_eq, ← List.drop_drop, left, ← List.drop_drop, List.drop_left]
  apply countP_drop_lt (by omega)
  exact Nat.zero_lt_of_lt inside

end CounterStyle

end Renumber.Pattern
