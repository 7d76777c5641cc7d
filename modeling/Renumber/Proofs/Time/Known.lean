import Mathlib.Data.Option.Basic
import Renumber.Proofs.Time.Reading

/-!
# Times that were read

A reader lets only dates through that exist, and offsets of whole minutes. So a time that
was read, whatever its notation, can be written again.
-/

namespace Renumber.Time

open Renumber.Outcome (guard_bind_eq_some)

variable {date : Date} {hour minute second nanos least most n : Nat} {east : Int} {t : Instant}
  {s rest : List Char}

/-! ## Numbers and offsets -/

/-- As many digits at most are a number below the power. -/
theorem number_lt (read : number least most s = some (n, rest)) : n < 10 ^ most := by
  rw [number] at read
  split at read
  · cases read
    have few : ((s.take most).takeWhile Char.isDigit).length ≤ most :=
      (List.takeWhile_prefix _).length_le.trans (List.length_take_le _ _)
    exact (Text.numberIn_lt (by decide) _).trans_le (Nat.pow_le_pow_right (by decide) few)
  · cases read

theorem minutes_of_signedOffset {gap : List Char → Option (List Char)}
    (read : signedOffset gap s = some (east, rest)) : east % 60 = 0 := by
  have product : ∀ (sign : Int) (hours minutes : Nat),
      sign * (hours * 3600 + minutes * 60 : Nat) % 60 = 0 := by
    intro sign hours minutes
    have whole : ((hours * 3600 + minutes * 60 : Nat) : Int) = (hours * 60 + minutes : Nat) * 60 := by
      omega
    rw [whole, ← Int.mul_assoc, Int.mul_emod_left]
  rw [signedOffset.eq_def] at read
  split at read
  all_goals
    obtain ⟨⟨sign, _⟩, -, read⟩ := Option.bind_eq_some_iff.1 read
    obtain ⟨⟨hours, _⟩, -, read⟩ := Option.bind_eq_some_iff.1 read
    obtain ⟨_, -, read⟩ := Option.bind_eq_some_iff.1 read
    obtain ⟨⟨minutes, _⟩, -, read⟩ := Option.bind_eq_some_iff.1 read
    obtain ⟨_, -, read⟩ := Option.bind_eq_some_iff.1 read
    cases read
    exact product sign hours minutes

theorem minutes_of_offset {gap : List Char → Option (List Char)}
    (read : offset gap s = some (east, rest)) : east % 60 = 0 := by
  rw [offset.eq_def] at read
  split at read
  · cases read
    rfl
  · cases read
    rfl
  · exact minutes_of_signedOffset read

theorem minutes_of_relaxedOffset (read : relaxedOffset s = some (east, rest)) : east % 60 = 0 := by
  rw [relaxedOffset] at read
  split at read
  · cases read
    rfl
  · exact minutes_of_offset read

/-! ## Dates and clocks -/

theorem Date.inCalendar_of_isValid (january : 1 ≤ date.month) (valid : date.isValid = true) :
    date.InCalendar := by
  simp only [Date.isValid, Bool.and_eq_true, decide_eq_true_eq] at valid
  obtain ⟨-, first⟩ := valid.1
  refine ⟨january, ?_, first, valid.2⟩
  -- a month behind December has no day
  by_contra behind
  have none : daysInMonth date.year date.month = 0 := by
    rw [daysInMonth.eq_def]
    split
    all_goals first | rfl | omega
  omega

/-- An instant that is made of a date and a time is shown with that date by the clock that they
were read from. -/
structure Shows (date : Date) (east : Int) (t : Instant) : Prop where
  shown : t.IsShown east
  date : (t.local east).1 = date
  day : east.natAbs < 86400

theorem shows_of_instantOf? (made : instantOf? date hour minute second nanos east = some t) :
    Shows date east t := by
  rw [instantOf?] at made
  obtain ⟨exists_date, made⟩ := guard_bind_eq_some.1 made
  obtain ⟨exists_time, made⟩ := guard_bind_eq_some.1 made
  obtain ⟨day, made⟩ := guard_bind_eq_some.1 made
  obtain ⟨known, made⟩ := guard_bind_eq_some.1 made
  simp only [Bool.and_eq_true, decide_eq_true_eq] at exists_date exists_time
  obtain ⟨january, valid⟩ := exists_date
  obtain ⟨⟨⟨before_midnight, below_hour⟩, leap⟩, below_second⟩ := exists_time
  have billion : nanosPerSecond = 1000000000 := rfl
  generalize leaps : (if second = 60 then 1 else 0) = leaping at made known
  have second_of_minute : second - leaping ≤ 59 ∧ (leaping = 0 ∨ leaping = 1 ∧ second - leaping = 59) := by
    split at leaps <;> omega
  generalize second - leaping = last at second_of_minute made known
  cases made
  have seconds : date.toDays * 86400 + (hour * 3600 + minute * 60 + last : Nat) - east + east =
      date.toDays * 86400 + (hour * 3600 + minute * 60 + last : Nat) := by
    omega
  have days : (date.toDays * 86400 + (hour * 3600 + minute * 60 + last : Nat) - east + east) / 86400 =
      date.toDays := by
    omega
  have same : (Instant.local ⟨date.toDays * 86400 + (hour * 3600 + minute * 60 + last : Nat) - east,
      nanos + leaping * nanosPerSecond⟩ east).1 = date := by
    rw [Instant.local]
    dsimp only
    rw [days, Date.ofDays_toDays (Date.inCalendar_of_isValid january valid)]
  refine ⟨⟨?_, known, ?_⟩, same, day⟩
  · simp only [Date.isValid, Bool.and_eq_true, decide_eq_true_eq] at valid
    rw [same]
    exact valid.1.1
  · dsimp only
    rw [billion] at below_second ⊢
    omega

/-- The year of a stamp has four digits, and its offset is one of whole minutes below a day. -/
theorem isRegular_of_readStamp? {stamp : Stamp} (read : readStamp? s = some stamp) :
    stamp.IsRegular := by
  rw [readStamp?] at read
  -- only the year, the offset and the instant matter
  obtain ⟨⟨year, _⟩, four, read⟩ := Option.bind_eq_some_iff.1 read
  obtain ⟨_, -, read⟩ := Option.bind_eq_some_iff.1 read
  obtain ⟨⟨month, _⟩, -, read⟩ := Option.bind_eq_some_iff.1 read
  obtain ⟨_, -, read⟩ := Option.bind_eq_some_iff.1 read
  obtain ⟨⟨day, _⟩, -, read⟩ := Option.bind_eq_some_iff.1 read
  obtain ⟨_, -, read⟩ := Option.bind_eq_some_iff.1 read
  obtain ⟨⟨hour, _⟩, -, read⟩ := Option.bind_eq_some_iff.1 read
  obtain ⟨_, -, read⟩ := Option.bind_eq_some_iff.1 read
  obtain ⟨⟨minute, _⟩, -, read⟩ := Option.bind_eq_some_iff.1 read
  obtain ⟨_, -, read⟩ := Option.bind_eq_some_iff.1 read
  obtain ⟨⟨second, _⟩, -, read⟩ := Option.bind_eq_some_iff.1 read
  obtain ⟨⟨nanos, _⟩, -, read⟩ := Option.bind_eq_some_iff.1 read
  obtain ⟨⟨east, _⟩, zone, read⟩ := Option.bind_eq_some_iff.1 read
  obtain ⟨_, -, read⟩ := Option.bind_eq_some_iff.1 read
  obtain ⟨instant, made, read⟩ := Option.bind_eq_some_iff.1 read
  cases read
  have shows := shows_of_instantOf? made
  have digits := number_lt four
  refine ⟨⟨?_, shows.shown.fraction⟩, minutes_of_offset zone, shows.day⟩
  rw [shows.date]
  dsimp only
  omega

/-- In universal time there is a date for every instant that is read. -/
theorem isShown_of_readInstant? (read : readInstant? s = some t) : t.IsShown 0 := by
  rw [readInstant?] at read
  obtain ⟨⟨year, _⟩, -, read⟩ := Option.bind_eq_some_iff.1 read
  obtain ⟨_, -, read⟩ := Option.bind_eq_some_iff.1 read
  obtain ⟨⟨month, _⟩, -, read⟩ := Option.bind_eq_some_iff.1 read
  obtain ⟨_, -, read⟩ := Option.bind_eq_some_iff.1 read
  obtain ⟨⟨day, _⟩, -, read⟩ := Option.bind_eq_some_iff.1 read
  obtain ⟨_, -, read⟩ := Option.bind_eq_some_iff.1 read
  obtain ⟨⟨hour, _⟩, -, read⟩ := Option.bind_eq_some_iff.1 read
  obtain ⟨_, -, read⟩ := Option.bind_eq_some_iff.1 read
  obtain ⟨⟨minute, _⟩, -, read⟩ := Option.bind_eq_some_iff.1 read
  obtain ⟨_, -, read⟩ := Option.bind_eq_some_iff.1 read
  obtain ⟨⟨second, _⟩, -, read⟩ := Option.bind_eq_some_iff.1 read
  obtain ⟨⟨nanos, _⟩, -, read⟩ := Option.bind_eq_some_iff.1 read
  obtain ⟨⟨east, _⟩, zone, read⟩ := Option.bind_eq_some_iff.1 read
  obtain ⟨_, -, read⟩ := Option.bind_eq_some_iff.1 read
  have shown := (shows_of_instantOf? read).shown
  have minutes := minutes_of_relaxedOffset zone
  refine Instant.isShown_of_inRange shown.known (shown.fraction.imp_right (And.imp_right fun last => ?_))
  omega

end Renumber.Time
