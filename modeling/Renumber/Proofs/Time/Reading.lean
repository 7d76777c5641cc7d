import Mathlib.Algebra.Group.Nat.Defs
import Mathlib.Data.List.TakeWhile
import Renumber.Proofs.Outcome
import Renumber.Proofs.Text.Digit
import Renumber.Proofs.Time.Calendar
import Renumber.Text.Blank
import Renumber.Time.Instant
import Renumber.Time.Reader

/-!
# Times are read as they are written

A time is written field by field, each with a fixed number of digits, so every reader takes
its field and leaves the rest. The date and the clock that were written are those of the
instant, and only one instant has them. A written stamp is one word: digits and marks between
them, and no blank. So it stands alone where words are told apart by blanks, and it never ends
a line.
-/

namespace Renumber.Time

open Renumber.Outcome (bind_of_some)
open Renumber.Text (trimStart isBlank)

/-! ## Times as words -/

/-- A text without blanks. -/
def IsWord (s : String) : Prop :=
  ∀ c ∈ s.toList, isBlank c = false

instance (s : String) : Decidable (IsWord s) :=
  decidable_of_iff (s.toList.all fun c => !isBlank c) (by simp [IsWord])

theorem IsWord.append {s t : String} (first : IsWord s) (second : IsWord t) : IsWord (s ++ t) := by
  intro c member
  rw [String.toList_append, List.mem_append] at member
  exact member.elim (first c) (second c)

theorem isBlank_of_isDigit {c : Char} (digit : c.isDigit = true) : isBlank c = false := by
  have bounds : 48 ≤ c.toNat ∧ c.toNat ≤ 57 := by
    simpa [Char.isDigit, UInt32.le_iff_toNat_le] using digit
  simp only [isBlank, Bool.or_eq_false_iff, Bool.and_eq_false_iff, decide_eq_false_iff_not,
    beq_eq_false_iff_ne]
  omega

theorem isWord_toString (n : Nat) : IsWord (toString n) := by
  intro c member
  have digits : (toString n).toList = Nat.toDigits 10 n := Nat.toList_repr
  rw [digits] at member
  exact isBlank_of_isDigit (Nat.isDigit_of_mem_toDigits (by decide) (by decide) member)

theorem isWord_padded (width n : Nat) : IsWord (padded width n) := by
  refine IsWord.append ?_ (isWord_toString n)
  intro c member
  rw [String.toList_ofList, List.mem_replicate] at member
  rw [member.2]
  decide

theorem isWord_yearText (year : Int) : IsWord (yearText year) := by
  rw [yearText]
  split
  · exact isWord_padded _ _
  · refine IsWord.append ?_ (isWord_padded _ _)
    split <;> decide

theorem isWord_date (d : Date) : IsWord d.text := by
  have dash : IsWord "-" := by decide
  exact ((((isWord_yearText _).append dash).append (isWord_padded _ _)).append dash).append
    (isWord_padded _ _)

theorem isWord_clockText (ofDay nanos : Nat) : IsWord (clockText ofDay nanos) := by
  have colon : IsWord ":" := by decide
  exact ((((isWord_padded _ _).append colon).append (isWord_padded _ _)).append colon).append
    (isWord_padded _ _)

theorem isWord_fractionText (nanos : Nat) : IsWord (fractionText nanos) := by
  have point : IsWord "." := by decide
  rw [fractionText]
  split
  · decide
  split
  · exact point.append (isWord_padded _ _)
  split
  · exact point.append (isWord_padded _ _)
  · exact point.append (isWord_padded _ _)

theorem isWord_offsetText (offset : Int) : IsWord (offsetText offset) := by
  have colon : IsWord ":" := by decide
  have sign : IsWord (if offset < 0 then "-" else "+") := by
    split <;> decide
  exact ((sign.append (isWord_padded _ _)).append colon).append (isWord_padded _ _)

/-- A written stamp holds no blank. -/
theorem isWord_stamp (s : Stamp) : IsWord s.text := by
  have letter : IsWord "T" := by decide
  have date_time := ((isWord_date (s.instant.local s.offset).1).append letter).append
    (isWord_clockText (s.instant.local s.offset).2 s.instant.nanos)
  exact (date_time.append (isWord_fractionText _)).append (isWord_offsetText _)

theorem stamp_ne_nil (s : Stamp) : s.text.toList ≠ [] := by
  have sign : (if s.offset < 0 then "-" else "+").toList ≠ [] := by
    split <;> decide
  rw [Stamp.text, offsetText]
  simp only [String.toList_append]
  simp [sign]

variable {width n : Nat}

/-! ## Numbers -/

theorem padded_chars (width n : Nat) : (padded width n).toList =
    List.replicate (width - (Nat.toDigits 10 n).length) '0' ++ Nat.toDigits 10 n := by
  have digits : (toString n).toList = Nat.toDigits 10 n := Nat.toList_repr
  rw [padded, String.toList_append, String.toList_ofList, digits, ← String.length_toList, digits]

theorem isDigit_of_mem_padded {c : Char} (member : c ∈ (padded width n).toList) :
    c.isDigit = true := by
  rw [padded_chars] at member
  obtain zero | digit := List.mem_append.1 member
  · rw [List.eq_of_mem_replicate zero]
    rfl
  · exact Nat.isDigit_of_mem_toDigits (by decide) (by decide) digit

theorem numberIn_padded (width n : Nat) : Text.numberIn 10 (padded width n).toList = n := by
  rw [padded_chars, Text.numberIn_zeros]
  exact Text.numberIn_toDigits (by decide) (by decide)

/-- A number that fits a width is written with as many digits. -/
theorem padded_digits (some_digit : 0 < width) (fits : n < 10 ^ width) :
    (padded width n).toList.length = width ∧ (∀ c ∈ (padded width n).toList, c.isDigit = true) ∧
      Text.numberIn 10 (padded width n).toList = n := by
  have short : (Nat.toDigits 10 n).length ≤ width :=
    (Nat.length_toDigits_le_iff (by decide) some_digit).2 fits
  refine ⟨?_, fun c => isDigit_of_mem_padded, numberIn_padded width n⟩
  rw [padded_chars, List.length_append, List.length_replicate]
  omega

/-- Digits are taken up to what is none, if they may be as many. -/
theorem takeWhile_digits {digits : List Char} {most : Nat} {c : Char}
    (digit : ∀ c ∈ digits, c.isDigit = true) (short : digits.length ≤ most) (ends : c.isDigit = false)
    (rest : List Char) : ((digits ++ c :: rest).take most).takeWhile Char.isDigit = digits := by
  rw [List.take_append, List.take_of_length_le short]
  refine Text.takeWhile_run digit fun first begins => ?_
  cases more : most - digits.length with
  | zero =>
      rw [more] at begins
      cases begins
  | succ more' =>
      rw [more] at begins
      exact Option.some.inj begins ▸ ends

/-- A number of fixed width is read with nothing taken from what follows. -/
theorem number_padded {least : Nat} (enough : least ≤ width) (some_digit : 0 < width)
    (fits : n < 10 ^ width) (rest : List Char) :
    number least width ((padded width n).toList ++ rest) = some (n, rest) := by
  obtain ⟨long, digit, value⟩ := padded_digits some_digit fits
  have taken : (((padded width n).toList ++ rest).take width).takeWhile Char.isDigit =
      (padded width n).toList := by
    rw [List.take_left' long, List.takeWhile_eq_self_iff]
    exact digit
  rw [number, taken, long, if_pos enough, value, List.drop_left' long]

theorem exists_padded_head (some_digit : 0 < width) (fits : n < 10 ^ width) (rest : List Char) :
    ∃ c more, (padded width n).toList ++ rest = c :: more ∧ c.isDigit = true := by
  obtain ⟨long, digit, -⟩ := padded_digits some_digit fits
  cases chars : (padded width n).toList with
  | nil =>
      rw [chars] at long
      rw [← long] at some_digit
      cases some_digit
  | cons c more =>
      rw [chars] at digit
      exact ⟨c, more ++ rest, rfl, digit c List.mem_cons_self⟩

theorem trimStart_of_head {c : Char} {s : List Char} (printed : isBlank c = false) :
    trimStart (c :: s) = c :: s := by
  rw [trimStart, List.dropWhile_cons, printed]
  rfl

/-- No blank stands in front of a written number. -/
theorem spaced_padded (some_digit : 0 < width) (fits : n < 10 ^ width) (rest : List Char) :
    spaced width ((padded width n).toList ++ rest) = some (n, rest) := by
  obtain ⟨c, more, shape, digit⟩ := exists_padded_head some_digit fits rest
  rw [spaced, shape, trimStart_of_head (isBlank_of_isDigit digit), ← shape,
    number_padded some_digit some_digit fits]

theorem spacedYear_padded (fits : n < 10 ^ 4) (rest : List Char) :
    spacedYear ((padded 4 n).toList ++ rest) = some ((n : Int), rest) := by
  obtain ⟨c, more, shape, digit⟩ := exists_padded_head (by decide) fits rest
  have unsigned : c ≠ '-' ∧ c ≠ '+' := by
    constructor
    · rintro rfl
      cases digit
    · rintro rfl
      cases digit
  rw [spacedYear, shape, trimStart_of_head (isBlank_of_isDigit digit)]
  split
  next same => exact absurd (List.cons.inj same).1 unsigned.1
  next same => exact absurd (List.cons.inj same).1 unsigned.2
  next =>
    rw [← shape, number_padded (by decide) (by decide) fits]
    rfl

theorem length_padded_pos (some_digit : 0 < width) : 0 < (padded width n).toList.length := by
  rw [padded_chars, List.length_append, List.length_replicate]
  omega

/-- A number is read to its last digit if as many may be read. -/
theorem number_padded_whole (some_digit : 0 < width) {most : Nat}
    (short : (padded width n).toList.length ≤ most) {c : Char} (ends : c.isDigit = false)
    (rest : List Char) : number 1 most ((padded width n).toList ++ c :: rest) = some (n, c :: rest) := by
  have taken := takeWhile_digits (fun _ => isDigit_of_mem_padded) short ends rest
  have some_char : 1 ≤ (padded width n).toList.length := length_padded_pos some_digit
  rw [number, taken, if_pos some_char, numberIn_padded, List.drop_left]

theorem spacedYear_minus (s : List Char) : spacedYear ('-' :: s) =
    (number 1 s.length s).map fun (n, rest) => (-(n : Int), rest) := rfl

theorem spacedYear_plus (s : List Char) : spacedYear ('+' :: s) =
    (number 1 s.length s).map fun (n, rest) => ((n : Int), rest) := rfl

/-- A year is read with its sign, however many digits it has. -/
theorem spacedYear_yearText (year : Int) (rest : List Char) :
    spacedYear ((yearText year).toList ++ '-' :: rest) = some (year, '-' :: rest) := by
  have whole := number_padded_whole (n := year.natAbs) (show 0 < 4 by decide)
    (Nat.le_add_right _ ('-' :: rest).length) (show '-'.isDigit = false from rfl) rest
  rw [← List.length_append] at whole
  have minus : "-".toList = ['-'] := rfl
  have plus : "+".toList = ['+'] := rfl
  rw [yearText]
  split
  · next short => rw [spacedYear_padded (by omega), Int.toNat_of_nonneg short.1]
  · split
    · next before =>
      have value : (-(year.natAbs : Int)) = year := by omega
      rw [String.toList_append, minus, List.singleton_append, List.cons_append, spacedYear_minus,
        whole]
      exact congrArg (fun y : Int => some (y, '-' :: rest)) value
    · next after =>
      have value : (year.natAbs : Int) = year := by omega
      rw [String.toList_append, plus, List.singleton_append, List.cons_append, spacedYear_plus,
        whole]
      exact congrArg (fun y : Int => some (y, '-' :: rest)) value

theorem expect_cons (c : Char) (rest : List Char) : expect c (c :: rest) = some rest :=
  if_pos rfl

theorem dateEnd_cons (rest : List Char) : dateEnd ('T' :: rest) = some rest := rfl

/-! ## Fractions and offsets -/

/-- Digits after a point are as many billionths. -/
theorem fraction_padded (some_digit : 0 < width) (short : width ≤ 9) (fits : n < 10 ^ width) {c : Char}
    (rest : List Char) (ends : c.isDigit = false) :
    fraction ('.' :: ((padded width n).toList ++ c :: rest)) =
      some (n * 10 ^ (9 - width), c :: rest) := by
  obtain ⟨long, digit, value⟩ := padded_digits some_digit fits
  have taken := takeWhile_digits digit (long.trans_le short) ends rest
  have left : ((padded width n).toList ++ c :: rest).dropWhile Char.isDigit = c :: rest := by
    rw [List.dropWhile_append_of_pos digit, List.dropWhile_cons, ends]
    rfl
  have some_char : (padded width n).toList.isEmpty = false := by
    rw [List.isEmpty_eq_false_iff, ← List.length_pos_iff, long]
    exact some_digit
  rw [fraction, taken, some_char, left, long, value]
  rfl

/-- The fraction of a time is read to the nanosecond. -/
theorem fraction_fractionText {c : Char} (rest : List Char) (ends : c.isDigit = false)
    (dotless : c ≠ '.') : fraction ((fractionText n).toList ++ c :: rest) =
      some (n % nanosPerSecond, c :: rest) := by
  have small : n % nanosPerSecond < 10 ^ 9 := Nat.mod_lt n (by decide)
  have point : ∀ s, ("." ++ s).toList ++ c :: rest = '.' :: (s.toList ++ c :: rest) := by
    intro s
    rw [String.toList_append]
    rfl
  have exact : ∀ k, (n % nanosPerSecond % 10 ^ k == 0) = true →
      n % nanosPerSecond / 10 ^ k * 10 ^ k = n % nanosPerSecond := by
    intro k whole
    exact Nat.div_mul_cancel (Nat.dvd_of_mod_eq_zero (beq_iff_eq.1 whole))
  rw [fractionText]
  split
  next zero =>
    rw [beq_iff_eq.1 zero]
    show fraction (c :: rest) = some (0, c :: rest)
    rw [fraction]
    intro rest' same
    exact dotless (List.cons.inj same).1
  next =>
    split
    next thousandths =>
      rw [point, fraction_padded (by decide) (by decide) (by omega) _ ends]
      exact congrArg (fun m => some (m, c :: rest)) (exact 6 thousandths)
    next =>
      split
      next millionths =>
        rw [point, fraction_padded (by decide) (by decide) (by omega) _ ends]
        exact congrArg (fun m => some (m, c :: rest)) (exact 3 millionths)
      next =>
        rw [point, fraction_padded (by decide) (by decide) (by omega) _ ends]
        exact congrArg (fun m => some (m, c :: rest)) (Nat.mul_one _)

/-- Hours and minutes behind a sign are read as seconds. -/
theorem signedOffset_padded {hours minutes : Nat} (few : hours < 10 ^ 2) (low : minutes < 60)
    {mark : Char} {sign : Int} (signed : mark = '+' ∧ sign = 1 ∨ mark = '-' ∧ sign = -1) :
    signedOffset (expect ':')
        (mark :: ((padded 2 hours).toList ++ ':' :: ((padded 2 minutes).toList ++ []))) =
      some (sign * (hours * 3600 + minutes * 60 : Nat), []) := by
  have first := number_padded (Nat.le_refl 2) (by decide) few
    (':' :: ((padded 2 minutes).toList ++ []))
  have second := number_padded (Nat.le_refl 2) (by decide) (show minutes < 10 ^ 2 by omega) []
  have within : guard (minutes < 60) = some () := if_pos low
  obtain ⟨rfl, rfl⟩ | ⟨rfl, rfl⟩ := signed
  all_goals
    rw [signedOffset.eq_def]
    refine (bind_of_some rfl _).trans ?_
    refine (bind_of_some first _).trans ?_
    refine (bind_of_some (expect_cons ':' _) _).trans ?_
    refine (bind_of_some second _).trans ?_
    exact (bind_of_some within _).trans rfl

theorem offsetText_chars (east : Int) : (offsetText east).toList =
    (if east < 0 then '-' else '+') :: ((padded 2 ((east.natAbs + 30) / 60 / 60)).toList ++
      ':' :: ((padded 2 ((east.natAbs + 30) / 60 % 60)).toList ++ [])) := by
  have colon : ":".toList = [':'] := rfl
  have sign : (if east < 0 then "-" else "+").toList = [if east < 0 then '-' else '+'] := by
    split <;> rfl
  rw [offsetText]
  simp only [String.toList_append, sign, colon, List.append_assoc, List.cons_append,
    List.nil_append, List.append_nil]

/-- An offset of whole minutes below a day is read as it was written. -/
theorem offset_offsetText {east : Int} (minutes : east % 60 = 0) (day : east.natAbs < 86400) :
    offset (expect ':') (offsetText east).toList = some (east, []) := by
  have hours : (east.natAbs + 30) / 60 / 60 < 10 ^ 2 := by omega
  have small : (east.natAbs + 30) / 60 % 60 < 60 := by omega
  rw [offsetText_chars]
  by_cases west : east < 0
  · have value : -1 * (((east.natAbs + 30) / 60 / 60 * 3600 + (east.natAbs + 30) / 60 % 60 * 60 : Nat) : Int) =
        east := by omega
    have read := signedOffset_padded hours small (.inr ⟨rfl, rfl⟩)
    rw [value] at read
    rw [← read, if_pos west]
    rfl
  · have value : 1 * (((east.natAbs + 30) / 60 / 60 * 3600 + (east.natAbs + 30) / 60 % 60 * 60 : Nat) : Int) =
        east := by omega
    have read := signedOffset_padded hours small (.inl ⟨rfl, rfl⟩)
    rw [value] at read
    rw [← read, if_neg west]
    rfl

/-! ## Instants that have a text -/

/-- On a clock some seconds east the instant has a year of four digits. Its fraction is below a
second, or the instant lies in the leap second at the end of a minute. -/
structure Instant.IsRegular (t : Instant) (east : Int) : Prop where
  year : 0 ≤ (t.local east).1.year ∧ (t.local east).1.year ≤ 9999
  fraction : t.nanos < nanosPerSecond ∨
    t.nanos < 2 * nanosPerSecond ∧ (t.seconds + east) % 60 = 59

/-- The stamp is of a regular instant, and its offset is one of whole minutes below a day. -/
structure Stamp.IsRegular (s : Stamp) : Prop where
  instant : s.instant.IsRegular s.offset
  minutes : s.offset % 60 = 0
  day : s.offset.natAbs < 86400

/-- A clock some seconds east can show the instant: there is a date for it, on that clock and in
universal time, and its fraction is below a second or says that it lies in the leap second at the
end of a minute. -/
structure Instant.IsShown (t : Instant) (east : Int) : Prop where
  year : minYear ≤ (t.local east).1.year ∧ (t.local east).1.year ≤ maxYear
  known : t.inRange = true
  fraction : t.nanos < nanosPerSecond ∨
    t.nanos < 2 * nanosPerSecond ∧ (t.seconds + east) % 60 = 59

namespace Instant

variable {t : Instant} {east : Int}

theorem inCalendar (t : Instant) (east : Int) : (t.local east).1.InCalendar :=
  inCalendar_ofDays _

/-- The date and the second of the day make up the instant. -/
theorem seconds_eq (t : Instant) (east : Int) :
    (t.local east).1.toDays * 86400 + (t.local east).2 - east = t.seconds ∧ (t.local east).2 < 86400 := by
  have days : (t.local east).1.toDays = (t.seconds + east) / 86400 := toDays_ofDays _
  have ofDay : (t.local east).2 = ((t.seconds + east) % 86400).toNat := rfl
  rw [days, ofDay]
  omega

/-- Dates of four-digit years lie well within the dates there are. -/
theorem toDays_bounds {d : Date} (year : 0 ≤ d.year ∧ d.year ≤ 9999) (month : 1 ≤ d.month ∧ d.month ≤ 12)
    (day : 1 ≤ d.day ∧ d.day ≤ 31) : -800000 ≤ d.toDays ∧ d.toDays ≤ 3000000 := by
  rw [Date.toDays]
  split
  next => omega
  next => omega

theorem daysInMonth_le (year : Int) (month : Nat) : daysInMonth year month ≤ 31 := by
  rw [daysInMonth.eq_def]
  split
  any_goals omega
  next => split <;> omega

theorem inRange_of_regular (regular : t.IsRegular east) (day : east.natAbs < 86400) :
    t.inRange = true := by
  obtain ⟨january, december, first, last⟩ := t.inCalendar east
  have bounds := toDays_bounds regular.year ⟨january, december⟩
    ⟨first, last.trans (daysInMonth_le _ _)⟩
  obtain ⟨seconds, short⟩ := seconds_eq t east
  have least : minSeconds = -8334601228800 := rfl
  have greatest : maxSeconds = 8210266876799 := rfl
  rw [inRange, Bool.and_eq_true, least, greatest]
  exact ⟨decide_eq_true (by omega), decide_eq_true (by omega)⟩

/-- A year of four digits is within bounds. -/
theorem IsRegular.shown (regular : t.IsRegular east) (day : east.natAbs < 86400) :
    t.IsShown east where
  year := by
    have year := regular.year
    rw [minYear, maxYear]
    omega
  known := inRange_of_regular regular day
  fraction := regular.fraction

/-- In universal time every instant within bounds has a date. -/
theorem isShown_of_inRange (known : t.inRange = true)
    (fraction : t.nanos < nanosPerSecond ∨ t.nanos < 2 * nanosPerSecond ∧ t.seconds % 60 = 59) :
    t.IsShown 0 where
  year := by
    rw [inRange, Bool.and_eq_true, decide_eq_true_eq, decide_eq_true_eq, minSeconds, maxSeconds] at known
    rw [«local», Int.add_zero]
    exact year_ofDays (by omega) (by omega)
  known := known
  fraction := by rwa [Int.add_zero]

theorem isValid_local (shown : t.IsShown east) :
    1 ≤ (t.local east).1.month ∧ (t.local east).1.isValid = true := by
  obtain ⟨january, -, first, last⟩ := t.inCalendar east
  refine ⟨january, ?_⟩
  rw [Date.isValid, Bool.and_eq_true, Bool.and_eq_true, Bool.and_eq_true]
  exact ⟨⟨⟨decide_eq_true shown.year.1, decide_eq_true shown.year.2⟩, decide_eq_true first⟩,
    decide_eq_true last⟩

/-- The date and the clock of an instant are those of no other one. -/
theorem instantOf?_local (shown : t.IsShown east) (day : east.natAbs < 86400) :
    instantOf? (t.local east).1 ((t.local east).2 / 3600) ((t.local east).2 / 60 % 60)
      ((t.local east).2 % 60 + t.nanos / nanosPerSecond) (t.nanos % nanosPerSecond) east = some t := by
  obtain ⟨seconds, short⟩ := seconds_eq t east
  obtain ⟨january, valid⟩ := isValid_local shown
  have billion : nanosPerSecond = 1000000000 := rfl
  have ofDay : ((t.local east).2 : Int) = (t.seconds + east) % 86400 :=
    Int.toNat_of_nonneg (Int.emod_nonneg _ (by decide))
  generalize (t.local east).1 = date at *
  generalize (t.local east).2 = second at *
  have leap : t.nanos < nanosPerSecond ∨ t.nanos < 2 * nanosPerSecond ∧ second % 60 = 59 := by
    obtain plain | ⟨twice, last⟩ := shown.fraction
    · exact .inl plain
    · exact .inr ⟨twice, by omega⟩
  have sixtieth : (if second % 60 + t.nanos / nanosPerSecond = 60 then 1 else 0) =
      t.nanos / nanosPerSecond := by
    rw [billion] at leap ⊢
    split <;> omega
  let clock (leaps : Nat) : Instant :=
    ⟨date.toDays * 86400 + (second / 3600 * 3600 + second / 60 % 60 * 60 +
        (second % 60 + t.nanos / nanosPerSecond - leaps) : Nat) - east,
      t.nanos % nanosPerSecond + leaps * nanosPerSecond⟩
  have time : clock (if second % 60 + t.nanos / nanosPerSecond = 60 then 1 else 0) = t := by
    have whole : (second / 3600 * 3600 + second / 60 % 60 * 60 +
        (second % 60 + t.nanos / nanosPerSecond - t.nanos / nanosPerSecond) : Nat) = second := by
      omega
    rw [sixtieth]
    show (⟨_, _⟩ : Instant) = t
    rw [whole, seconds, Nat.mod_add_div']
  have exists_date : guard ((decide (1 ≤ date.month) && date.isValid) = true) = some () := by
    rw [valid, decide_eq_true january]
    rfl
  have exists_time : guard ((decide (second / 3600 ≤ 23) && decide (second / 60 % 60 ≤ 59) &&
      decide (second % 60 + t.nanos / nanosPerSecond ≤ 60) &&
      decide (t.nanos % nanosPerSecond < nanosPerSecond)) = true) = some () := by
    rw [billion] at leap ⊢
    rw [decide_eq_true (by omega), decide_eq_true (by omega), decide_eq_true (by omega),
      decide_eq_true (by omega)]
    rfl
  have within : guard (east.natAbs < 86400) = some () := if_pos day
  have known : guard (t.inRange = true) = some () := if_pos shown.known
  rw [instantOf?]
  refine (bind_of_some exists_date _).trans ?_
  refine (bind_of_some exists_time _).trans ?_
  refine (bind_of_some within _).trans ?_
  refine (congrArg (fun t : Instant => (guard (t.inRange = true) : Option Unit).bind fun _ => some t)
    time).trans ?_
  exact bind_of_some known _

/-! ## Written times -/

/-- The date and the clock of a time, with a mark for what is behind them. -/
def fields (t : Instant) (east : Int) (tail : List Char) : List Char :=
  (yearText (t.local east).1.year).toList ++ '-' ::
    ((padded 2 (t.local east).1.month).toList ++ '-' ::
      ((padded 2 (t.local east).1.day).toList ++ 'T' ::
        ((padded 2 ((t.local east).2 / 3600)).toList ++ ':' ::
          ((padded 2 ((t.local east).2 / 60 % 60)).toList ++ ':' ::
            ((padded 2 ((t.local east).2 % 60 + t.nanos / nanosPerSecond)).toList ++
              ((fractionText t.nanos).toList ++ tail))))))

theorem text_eq_fields (t : Instant) (east : Int) (tail : String) :
    ((t.local east).1.text ++ "T" ++ clockText (t.local east).2 t.nanos ++ fractionText t.nanos ++
      tail).toList = t.fields east tail.toList := by
  have dash : "-".toList = ['-'] := rfl
  have colon : ":".toList = [':'] := rfl
  have letter : "T".toList = ['T'] := rfl
  rw [Date.text, clockText, fields]
  simp only [String.toList_append, List.append_assoc, dash, colon, letter, List.cons_append,
    List.nil_append]

/-- Every field of an instant but the year fits its width. -/
theorem fits_fields (shown : t.IsShown east) :
    (t.local east).1.month < 10 ^ 2 ∧ (t.local east).1.day < 10 ^ 2 ∧
      (t.local east).2 / 3600 < 10 ^ 2 ∧ (t.local east).2 / 60 % 60 < 10 ^ 2 ∧
      (t.local east).2 % 60 + t.nanos / nanosPerSecond < 10 ^ 2 := by
  obtain ⟨-, december, -, last⟩ := t.inCalendar east
  have day := last.trans (daysInMonth_le _ _)
  obtain ⟨-, short⟩ := seconds_eq t east
  have fraction : t.nanos / nanosPerSecond < 2 := by
    have billion : nanosPerSecond = 1000000000 := rfl
    have fraction := shown.fraction
    rw [billion] at fraction ⊢
    omega
  generalize (t.local east).1 = date at *
  generalize (t.local east).2 = ofDay at *
  generalize t.nanos / nanosPerSecond = leap at *
  refine ⟨?_, ?_, ?_, ?_, ?_⟩
  all_goals omega

end Instant

/-- A regular stamp is read as it was written. -/
theorem readStamp?_text {s : Stamp} (regular : s.IsRegular) : readStamp? s.text.toList = some s := by
  have shown := regular.instant.shown regular.day
  obtain ⟨month, day, hour, minute, second⟩ := Instant.fits_fields shown
  have text : s.text.toList = s.instant.fields s.offset (offsetText s.offset).toList :=
    Instant.text_eq_fields s.instant s.offset _
  have digits : yearText (s.instant.local s.offset).1.year =
      padded 4 (s.instant.local s.offset).1.year.toNat := if_pos regular.instant.year
  have year : (s.instant.local s.offset).1.year.toNat < 10 ^ 4 := by
    have year := regular.instant.year
    omega
  have date : (⟨((s.instant.local s.offset).1.year.toNat : Int), (s.instant.local s.offset).1.month,
      (s.instant.local s.offset).1.day⟩ : Date) = (s.instant.local s.offset).1 := by
    rw [Int.toNat_of_nonneg regular.instant.year.1]
  obtain ⟨c, rest, tail, ends, dotless⟩ : ∃ c rest, (offsetText s.offset).toList = c :: rest ∧
      c.isDigit = false ∧ c ≠ '.' := by
    rw [offsetText_chars]
    split
    · exact ⟨'-', _, rfl, rfl, by decide⟩
    · exact ⟨'+', _, rfl, rfl, by decide⟩
  have offset := offset_offsetText regular.minutes regular.day
  rw [text, Instant.fields, digits, readStamp?]
  refine (bind_of_some (number_padded (Nat.le_refl 4) (by decide) year _) _).trans ?_
  refine (bind_of_some (expect_cons '-' _) _).trans ?_
  refine (bind_of_some (number_padded (Nat.le_refl 2) (by decide) month _) _).trans ?_
  refine (bind_of_some (expect_cons '-' _) _).trans ?_
  refine (bind_of_some (number_padded (Nat.le_refl 2) (by decide) day _) _).trans ?_
  refine (bind_of_some (dateEnd_cons _) _).trans ?_
  refine (bind_of_some (number_padded (Nat.le_refl 2) (by decide) hour _) _).trans ?_
  refine (bind_of_some (expect_cons ':' _) _).trans ?_
  refine (bind_of_some (number_padded (Nat.le_refl 2) (by decide) minute _) _).trans ?_
  refine (bind_of_some (expect_cons ':' _) _).trans ?_
  refine (bind_of_some (number_padded (Nat.le_refl 2) (by decide) second _) _).trans ?_
  rw [tail] at offset ⊢
  refine (bind_of_some (fraction_fractionText rest ends dotless) _).trans ?_
  refine (bind_of_some offset _).trans ?_
  rw [date]
  exact (bind_of_some (Instant.instantOf?_local shown regular.day) _).trans rfl

/-- An instant with a date is read as it was written in universal time. -/
theorem readInstant?_zuluText {t : Instant} (shown : t.IsShown 0) :
    readInstant? t.zuluText.toList = some t := by
  obtain ⟨month, day, hour, minute, second⟩ := Instant.fits_fields shown
  have text : t.zuluText.toList = t.fields 0 ['Z'] := Instant.text_eq_fields t 0 "Z"
  have dash : ∀ rest, expect '-' (trimStart ('-' :: rest)) = some rest := fun rest => rfl
  have colon : ∀ rest, expect ':' (trimStart (':' :: rest)) = some rest := fun rest => rfl
  rw [text, Instant.fields, readInstant?]
  refine (bind_of_some (spacedYear_yearText _ _) _).trans ?_
  refine (bind_of_some (dash _) _).trans ?_
  refine (bind_of_some (spaced_padded (show 0 < 2 by decide) month _) _).trans ?_
  refine (bind_of_some (dash _) _).trans ?_
  refine (bind_of_some (spaced_padded (show 0 < 2 by decide) day _) _).trans ?_
  refine (bind_of_some (dateEnd_cons _) _).trans ?_
  refine (bind_of_some (spaced_padded (show 0 < 2 by decide) hour _) _).trans ?_
  refine (bind_of_some (colon _) _).trans ?_
  refine (bind_of_some (spaced_padded (show 0 < 2 by decide) minute _) _).trans ?_
  refine (bind_of_some (colon _) _).trans ?_
  refine (bind_of_some (spaced_padded (show 0 < 2 by decide) second _) _).trans ?_
  refine (bind_of_some (fraction_fractionText [] (show 'Z'.isDigit = false from rfl)
    (show 'Z' ≠ '.' by decide)) _).trans ?_
  have zone : relaxedOffset (trimStart ['Z']) = some (0, []) := rfl
  refine (bind_of_some zone _).trans ?_
  exact Instant.instantOf?_local shown (by decide)

end Renumber.Time
