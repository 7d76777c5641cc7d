import Renumber.Time.Calendar

/-!
# Days and dates

The date of a day exists, and it is that day again. Years are counted from the first of
March within eras of 400 years, so that a leap day is the last of its year; what has to be
shown is that the year found for a day is neither too early nor too late, and that a year
has 366 days only where the calendar has a leap day.
-/

namespace Renumber.Time

variable {day : Int}

/-! ## The year of an era -/

/-- The year of its era that a day lies in, counted from the first of March. -/
def yearOfEra (day : Int) : Int :=
  (day - day / 1460 + day / 36524 - day / 146096) / 365

/-- The day of that year. -/
def dayOfYear (day : Int) : Int :=
  day - (365 * yearOfEra day + yearOfEra day / 4 - yearOfEra day / 100)

theorem yearOfEra_bounds (least : 0 ≤ day) (greatest : day < 146097) :
    0 ≤ yearOfEra day ∧ yearOfEra day ≤ 399 := by
  rw [yearOfEra]
  omega

theorem yearOfEra_quotient (day : Int) :
    365 * yearOfEra day ≤ day - day / 1460 + day / 36524 - day / 146096 ∧
      day - day / 1460 + day / 36524 - day / 146096 < 365 * yearOfEra day + 365 := by
  rw [yearOfEra]
  omega

/-- Leap days come with every fourth year, and centuries drop them. -/
theorem leapDays_of_era (least : 0 ≤ day) (greatest : day < 146097) :
    yearOfEra day / 100 = day / 36524 - day / 146096 ∧
      (day / 1460 = yearOfEra day / 4 ∨ yearOfEra day + 1 = 4 * (day / 1460)) := by
  have century : day / 36524 = 0 ∨ day / 36524 = 1 ∨ day / 36524 = 2 ∨ day / 36524 = 3 ∨
      day / 36524 = 4 := by omega
  rw [yearOfEra]
  constructor
  · obtain c | c | c | c | c := century
    all_goals omega
  · omega

theorem dayOfYear_bounds (least : 0 ≤ day) (greatest : day < 146097) :
    0 ≤ dayOfYear day ∧ dayOfYear day ≤ 365 := by
  obtain ⟨centuries, fours⟩ := leapDays_of_era least greatest
  have year := yearOfEra_quotient day
  rw [dayOfYear]
  omega

/-- The last day of a year of 366 days is a leap day. -/
theorem leap_of_dayOfYear (least : 0 ≤ day) (greatest : day < 146097) (last : dayOfYear day = 365) :
    (yearOfEra day + 1) % 4 = 0 ∧
      ((yearOfEra day + 1) % 100 ≠ 0 ∨ (yearOfEra day + 1) % 400 = 0) := by
  obtain ⟨centuries, fours⟩ := leapDays_of_era least greatest
  have bounds := yearOfEra_bounds least greatest
  have year := yearOfEra_quotient day
  rw [dayOfYear] at last
  omega

/-! ## The months of a year -/

/-- The month that a day of the year lies in, counted from March. -/
def monthOfYear (ofYear : Int) : Int :=
  (5 * ofYear + 2) / 153

/-- The month of the civil year. -/
def civilMonth (month : Int) : Int :=
  if month < 10 then month + 3 else month - 9

theorem isLeapYear_iff (year : Int) :
    isLeapYear year = true ↔ year % 4 = 0 ∧ (year % 100 ≠ 0 ∨ year % 400 = 0) := by
  simp [isLeapYear]

/-- All months but February are as long as the count from March says. -/
theorem daysInMonth_civil (year : Int) {month : Int} (least : 0 ≤ month) (greatest : month ≤ 10) :
    (daysInMonth year (civilMonth month).toNat : Int) =
      (153 * (month + 1) + 2) / 5 - (153 * month + 2) / 5 := by
  have cases : month = 0 ∨ month = 1 ∨ month = 2 ∨ month = 3 ∨ month = 4 ∨ month = 5 ∨
      month = 6 ∨ month = 7 ∨ month = 8 ∨ month = 9 ∨ month = 10 := by omega
  obtain rfl | rfl | rfl | rfl | rfl | rfl | rfl | rfl | rfl | rfl | rfl := cases
  all_goals rfl

theorem daysInMonth_february (year : Int) :
    daysInMonth year (civilMonth 11).toNat = if isLeapYear year then 29 else 28 :=
  rfl

theorem monthOfYear_bounds {ofYear : Int} (least : 0 ≤ ofYear) (greatest : ofYear ≤ 365) :
    0 ≤ monthOfYear ofYear ∧ monthOfYear ofYear ≤ 11 ∧
      1 ≤ ofYear - (153 * monthOfYear ofYear + 2) / 5 + 1 ∧
      ofYear < (153 * (monthOfYear ofYear + 1) + 2) / 5 := by
  rw [monthOfYear]
  omega

theorem civilMonth_bounds {month : Int} (least : 0 ≤ month) (greatest : month ≤ 11) :
    1 ≤ civilMonth month ∧ civilMonth month ≤ 12 := by
  rw [civilMonth]
  split <;> omega

/-- No day of a year is behind the end of its month. -/
theorem dayOfMonth_le {ofYear : Int} (least : 0 ≤ ofYear) (greatest : ofYear ≤ 365) {year : Int}
    (leap : ofYear = 365 → isLeapYear year = true) :
    ofYear - (153 * monthOfYear ofYear + 2) / 5 + 1 ≤
      daysInMonth year (civilMonth (monthOfYear ofYear)).toNat := by
  obtain ⟨first, last, -, inside⟩ := monthOfYear_bounds least greatest
  by_cases february : monthOfYear ofYear = 11
  · rw [february, daysInMonth_february]
    cases leaps : isLeapYear year with
    | true =>
        rw [if_pos rfl]
        omega
    | false =>
        have short : ofYear ≠ 365 := by
          intro long
          rw [leap long] at leaps
          cases leaps
        rw [if_neg Bool.false_ne_true]
        omega
  · rw [daysInMonth_civil year first (by omega)]
    omega

/-! ## Days and dates -/

/-- A day lies in an era, and there in a year and a month. -/
theorem exists_era (days : Int) : ∃ era day, days + 719468 = era * 146097 + day ∧ 0 ≤ day ∧
    day < 146097 ∧ Date.ofDays days =
      ⟨if civilMonth (monthOfYear (dayOfYear day)) ≤ 2 then yearOfEra day + era * 400 + 1
          else yearOfEra day + era * 400,
        (civilMonth (monthOfYear (dayOfYear day))).toNat,
        (dayOfYear day - (153 * monthOfYear (dayOfYear day) + 2) / 5 + 1).toNat⟩ := by
  refine ⟨(days + 719468) / 146097, days + 719468 - (days + 719468) / 146097 * 146097, ?_, ?_, ?_, rfl⟩
  all_goals omega

/-- A day of the calendar, in whatever year. -/
structure Date.InCalendar (d : Date) : Prop where
  january : 1 ≤ d.month
  december : d.month ≤ 12
  first : 1 ≤ d.day
  last : d.day ≤ daysInMonth d.year d.month

/-- The date of a day is a day of the calendar. -/
theorem inCalendar_ofDays (days : Int) : (Date.ofDays days).InCalendar := by
  obtain ⟨era, day, -, least, greatest, date⟩ := exists_era days
  obtain ⟨first, last⟩ := dayOfYear_bounds least greatest
  obtain ⟨march, february, one, -⟩ := monthOfYear_bounds first last
  obtain ⟨january, december⟩ := civilMonth_bounds march february
  rw [date]
  refine ⟨?_, ?_, ?_, ?_⟩
  all_goals dsimp only
  any_goals omega
  rw [Int.toNat_le]
  apply dayOfMonth_le first last
  intro long
  obtain ⟨four, century⟩ := leap_of_dayOfYear least greatest long
  have month : civilMonth (monthOfYear (dayOfYear day)) = 2 := by
    rw [long]
    rfl
  rw [if_pos (by omega), isLeapYear_iff]
  omega

/-- The date of a day is that day. -/
theorem toDays_ofDays (days : Int) : (Date.ofDays days).toDays = days := by
  obtain ⟨era, day, split, least, greatest, date⟩ := exists_era days
  obtain ⟨first, last⟩ := dayOfYear_bounds least greatest
  obtain ⟨march, february, one, -⟩ := monthOfYear_bounds first last
  obtain ⟨january, december⟩ := civilMonth_bounds march february
  have year := yearOfEra_bounds least greatest
  have ofYear : dayOfYear day =
      day - (365 * yearOfEra day + yearOfEra day / 4 - yearOfEra day / 100) := rfl
  have civil : civilMonth (monthOfYear (dayOfYear day)) =
      if monthOfYear (dayOfYear day) < 10 then monthOfYear (dayOfYear day) + 3
      else monthOfYear (dayOfYear day) - 9 := rfl
  generalize monthOfYear (dayOfYear day) = month at *
  generalize yearOfEra day = y at *
  rw [date, Date.toDays]
  dsimp only
  -- January and February belong to the year that began in the March before.
  by_cases early : month < 10
  · rw [if_pos early] at civil
    have march : ¬ civilMonth month ≤ 2 := by omega
    have month_eq : ((civilMonth month).toNat : Int) - 3 = month := by omega
    have no_carry : (y + era * 400) / 400 = era := by omega
    have within : y + era * 400 - era * 400 = y := by omega
    rw [if_neg march, if_neg (by omega), if_neg (by omega), month_eq, no_carry, within]
    omega
  · rw [if_neg early] at civil
    have january : civilMonth month ≤ 2 := by omega
    have month_eq : ((civilMonth month).toNat : Int) + 9 = month := by omega
    have no_carry : (y + era * 400 + 1 - 1) / 400 = era := by omega
    have within : y + era * 400 + 1 - 1 - era * 400 = y := by omega
    rw [if_pos january, if_pos (by omega), if_pos (by omega), month_eq, no_carry, within]
    omega

/-- Days within bounds have years within bounds. -/
theorem year_ofDays {days : Int} (least : (Date.mk minYear 1 1).toDays ≤ days)
    (greatest : days ≤ (Date.mk maxYear 12 31).toDays) :
    minYear ≤ (Date.ofDays days).year ∧ (Date.ofDays days).year ≤ maxYear := by
  have first : (Date.mk minYear 1 1).toDays = -96465292 := by decide
  have last : (Date.mk maxYear 12 31).toDays = 95026236 := by decide
  obtain ⟨era, day, split, from_start, to_end, date⟩ := exists_era days
  have bounds := yearOfEra_bounds from_start to_end
  have within := dayOfYear_bounds from_start to_end
  have ofYear : dayOfYear day =
      day - (365 * yearOfEra day + yearOfEra day / 4 - yearOfEra day / 100) := rfl
  have month : monthOfYear (dayOfYear day) = (5 * dayOfYear day + 2) / 153 := rfl
  have civil : civilMonth (monthOfYear (dayOfYear day)) =
      if monthOfYear (dayOfYear day) < 10 then monthOfYear (dayOfYear day) + 3
      else monthOfYear (dayOfYear day) - 9 := rfl
  rw [date, minYear, maxYear]
  dsimp only
  generalize civilMonth (monthOfYear (dayOfYear day)) = c at *
  generalize monthOfYear (dayOfYear day) = m at *
  generalize dayOfYear day = n at *
  generalize yearOfEra day = y at *
  rw [first] at least
  rw [last] at greatest
  have eras : -656 ≤ era ∧ era ≤ 655 := by omega
  have start : era = -656 → 256 ≤ y ∧ (y = 256 → 306 ≤ n) := by
    rintro rfl
    have late : 255 < y ∨ 365 * y + y / 4 - y / 100 ≤ 93136 := by omega
    omega
  have finish : era = 655 → y ≤ 142 ∧ (y = 142 → n ≤ 305) := by
    rintro rfl
    have early : y < 143 ∨ 52229 ≤ 365 * y + y / 4 - y / 100 := by omega
    omega
  by_cases early : m < 10
  · rw [if_pos early] at civil
    rw [if_neg (by omega)]
    omega
  · rw [if_neg early] at civil
    rw [if_pos (by omega)]
    omega

/-! ## The day of a date -/

/-- The days of an era before one of its years. -/
def daysBefore (year : Int) : Int :=
  365 * year + year / 4 - year / 100

/-- A day of an era lies in one of its years only. The last day of a long year is a leap day. -/
theorem year_unique {y y' n n' : Int} (era : 0 ≤ y ∧ y ≤ 399) (era' : 0 ≤ y' ∧ y' ≤ 399)
    (within : 0 ≤ n ∧ n ≤ 365) (within' : 0 ≤ n' ∧ n' ≤ 365)
    (leap : n = 365 → (y + 1) % 4 = 0 ∧ ((y + 1) % 100 ≠ 0 ∨ (y + 1) % 400 = 0))
    (leap' : n' = 365 → (y' + 1) % 4 = 0 ∧ ((y' + 1) % 100 ≠ 0 ∨ (y' + 1) % 400 = 0))
    (same : daysBefore y + n = daysBefore y' + n') : y = y' := by
  have before : ∀ {a b m k : Int}, 0 ≤ a → b ≤ 399 → m ≤ 365 → 0 ≤ k →
      (m = 365 → (a + 1) % 4 = 0 ∧ ((a + 1) % 100 ≠ 0 ∨ (a + 1) % 400 = 0)) →
      a < b → daysBefore a + m < daysBefore b + k := by
    intro a b m k least greatest long some_day leap less
    rw [daysBefore, daysBefore]
    omega
  rcases Int.lt_trichotomy y y' with less | equal | more
  · have := before era.1 era'.2 within.2 within'.1 leap less
    omega
  · exact equal
  · have := before era'.1 era.2 within'.2 within.1 leap' more
    omega

namespace Date

variable {d : Date}

/-- The year that began in the March before. -/
def marchYear (d : Date) : Int :=
  if d.month ≤ 2 then d.year - 1 else d.year

/-- The month counted from March. -/
def marchMonth (d : Date) : Int :=
  if d.month ≤ 2 then d.month + 9 else d.month - 3

/-- The day counted from the first of March. -/
def marchDay (d : Date) : Int :=
  (153 * d.marchMonth + 2) / 5 + d.day - 1

theorem toDays_eq (d : Date) :
    d.toDays = d.marchYear / 400 * 146097 +
      (daysBefore (d.marchYear - d.marchYear / 400 * 400) + d.marchDay) - 719468 := by
  show _ = d.marchYear / 400 * 146097 + (365 * _ + _ - _ + d.marchDay) - 719468
  rw [Int.mul_comm 365]
  rfl

theorem civilMonth_marchMonth (calendar : d.InCalendar) :
    0 ≤ d.marchMonth ∧ d.marchMonth ≤ 11 ∧ (civilMonth d.marchMonth).toNat = d.month := by
  obtain ⟨january, december⟩ := And.intro calendar.january calendar.december
  rw [marchMonth, civilMonth]
  split <;> omega

/-- The day is the last of its month or an earlier one. -/
theorem marchDay_lt (calendar : d.InCalendar) : (153 * d.marchMonth + 2) / 5 ≤ d.marchDay ∧
    (d.marchMonth ≤ 10 → d.marchDay < (153 * (d.marchMonth + 1) + 2) / 5) ∧
    (d.marchMonth = 11 → d.marchDay ≤ 365 ∧ (d.marchDay = 365 → isLeapYear (d.marchYear + 1) = true)) := by
  obtain ⟨march, february, civil⟩ := civilMonth_marchMonth calendar
  obtain ⟨first, last⟩ := And.intro calendar.first calendar.last
  rw [← civil] at last
  refine ⟨?_, fun early => ?_, fun late => ?_⟩
  · rw [marchDay]
    omega
  · have long := daysInMonth_civil d.year march early
    rw [marchDay]
    omega
  · have year : d.marchYear + 1 = d.year := by
      rw [late] at civil
      have january : d.month ≤ 2 := by rw [← civil]; decide
      rw [marchYear, if_pos january]
      omega
    rw [late, daysInMonth_february] at last
    rw [marchDay, late, year]
    cases leaps : isLeapYear d.year with
    | true =>
        rw [leaps, if_pos rfl] at last
        exact ⟨by omega, fun _ => rfl⟩
    | false =>
        rw [leaps, if_neg Bool.false_ne_true] at last
        exact ⟨by omega, fun _ => by omega⟩

/-- The day of a date is that date. -/
theorem ofDays_toDays (calendar : d.InCalendar) : ofDays d.toDays = d := by
  obtain ⟨march, february, civil⟩ := civilMonth_marchMonth calendar
  obtain ⟨begun, early, late⟩ := marchDay_lt calendar
  have days := toDays_eq d
  have short : 0 ≤ d.marchDay ∧ d.marchDay ≤ 365 := by omega
  have leap : d.marchDay = 365 → (d.marchYear - d.marchYear / 400 * 400 + 1) % 4 = 0 ∧
      ((d.marchYear - d.marchYear / 400 * 400 + 1) % 100 ≠ 0 ∨
        (d.marchYear - d.marchYear / 400 * 400 + 1) % 400 = 0) := by
    intro last
    have leaps := (isLeapYear_iff _).1 ((late (by omega)).2 last)
    omega
  have within : 0 ≤ daysBefore (d.marchYear - d.marchYear / 400 * 400) + d.marchDay ∧
      daysBefore (d.marchYear - d.marchYear / 400 * 400) + d.marchDay < 146097 := by
    rw [daysBefore]
    omega
  obtain ⟨era, day, split, least, greatest, date⟩ := exists_era d.toDays
  have era_eq : era = d.marchYear / 400 := by omega
  have day_eq : day = daysBefore (d.marchYear - d.marchYear / 400 * 400) + d.marchDay := by omega
  have own : daysBefore (yearOfEra day) + dayOfYear day = day := by
    rw [dayOfYear, daysBefore]
    omega
  have year : yearOfEra day = d.marchYear - d.marchYear / 400 * 400 :=
    year_unique (yearOfEra_bounds least greatest) (by omega) (dayOfYear_bounds least greatest) short
      (leap_of_dayOfYear least greatest) leap (own.trans day_eq)
  have ofYear : dayOfYear day = d.marchDay := by
    rw [year] at own
    omega
  have month : monthOfYear (dayOfYear day) = d.marchMonth := by
    rw [ofYear, monthOfYear]
    omega
  rw [date, month, year, ofYear, civil]
  have day_of_month : (d.marchDay - (153 * d.marchMonth + 2) / 5 + 1).toNat = d.day := by
    rw [marchDay]
    omega
  rw [day_of_month]
  have same_year : (if civilMonth d.marchMonth ≤ 2 then
      d.marchYear - d.marchYear / 400 * 400 + era * 400 + 1
      else d.marchYear - d.marchYear / 400 * 400 + era * 400) = d.year := by
    have cut : civilMonth d.marchMonth ≤ 2 ↔ d.month ≤ 2 := by omega
    rw [marchYear] at *
    split <;> split at * <;> omega
  rw [same_year]

end Date

end Renumber.Time
