import Mathlib.Algebra.Group.Nat.Defs
import Mathlib.Data.List.Induction
import Renumber.Text.Digit

/-!
# Numbers and their digits

The digits that a number is written with are digits of the base, and read as a number they
give it back. Zeros in front make no difference, and neither does the case of letters.
-/

namespace Renumber.Text

variable {base n : Nat}

/-- A run ends where the first character stands that does not belong to it. -/
theorem takeWhile_run {p : Char → Bool} {run s : List Char} (each : ∀ c ∈ run, p c = true)
    (ends : ∀ c ∈ s.head?, p c = false) : (run ++ s).takeWhile p = run := by
  rw [List.takeWhile_append_of_pos each]
  cases s with
  | nil => exact List.append_nil run
  | cons c s =>
      rw [List.takeWhile_cons_of_neg, List.append_nil]
      rw [ends c rfl]
      exact Bool.false_ne_true

theorem digit?_digitChar_table : ∀ d : Fin 16,
    digit? 16 (Nat.digitChar d.val) = some d.val ∧
      digit? 16 (Nat.digitChar d.val).toUpper = some d.val := by
  decide

/-- A digit of base sixteen is one of every base that is greater than its value. -/
theorem digit?_of_sixteen {c : Char} {d : Nat} (digit : digit? 16 c = some d) (small : d < base) :
    digit? base c = some d := by
  rw [digit?, Option.filter_eq_some_iff] at digit ⊢
  exact ⟨digit.1, decide_eq_true small⟩

/-- The character of a digit has its value, in either case. -/
theorem digit?_digitChar {d : Nat} (known : base ≤ 16) (small : d < base) :
    digit? base (Nat.digitChar d) = some d ∧ digit? base (Nat.digitChar d).toUpper = some d := by
  obtain ⟨lower, upper⟩ := digit?_digitChar_table ⟨d, by omega⟩
  exact ⟨digit?_of_sixteen lower small, digit?_of_sixteen upper small⟩

/-- A number is written with the characters of digits. -/
theorem exists_of_mem_toDigits (many : 1 < base) {c : Char} (member : c ∈ Nat.toDigits base n) :
    ∃ d < base, c = Nat.digitChar d := by
  induction n using Nat.strongRecOn with
  | ind n ih =>
      by_cases single : n < base
      · rw [Nat.toDigits_of_lt_base single, List.mem_singleton] at member
        exact ⟨n, single, member⟩
      · rw [Nat.toDigits_of_base_le many (by omega), List.mem_append, List.mem_singleton] at member
        obtain front | last := member
        · exact ih (n / base) (Nat.div_lt_self (by omega) many) front
        · exact ⟨n % base, Nat.mod_lt n (by omega), last⟩

theorem isDigit_of_mem_toDigits (many : 1 < base) (known : base ≤ 16) {c : Char}
    (member : c ∈ Nat.toDigits base n) : isDigit base c = true := by
  obtain ⟨d, small, rfl⟩ := exists_of_mem_toDigits many member
  rw [isDigit, (digit?_digitChar known small).1]
  rfl

theorem numberIn_concat (digits : List Char) (c : Char) :
    numberIn base (digits ++ [c]) = numberIn base digits * base + (digit? base c).getD 0 := by
  rw [numberIn, List.foldl_append]
  rfl

/-- The digits of a number stand for it. -/
theorem numberIn_toDigits (many : 1 < base) (known : base ≤ 16) :
    numberIn base (Nat.toDigits base n) = n := by
  induction n using Nat.strongRecOn with
  | ind n ih =>
      by_cases single : n < base
      · rw [Nat.toDigits_of_lt_base single]
        show 0 * base + (digit? base (Nat.digitChar n)).getD 0 = n
        rw [(digit?_digitChar known single).1, Option.getD_some]
        omega
      · have last : n % base < base := Nat.mod_lt n (by omega)
        rw [Nat.toDigits_of_base_le many (by omega), numberIn_concat,
          ih (n / base) (Nat.div_lt_self (by omega) many), (digit?_digitChar known last).1,
          Option.getD_some]
        exact Nat.div_add_mod' n base

/-- What digits stand for depends on their values only. -/
theorem numberIn_map {f : Char → Char} {digits : List Char}
    (same : ∀ c ∈ digits, digit? base (f c) = digit? base c) :
    numberIn base (digits.map f) = numberIn base digits := by
  induction digits using List.reverseRecOn with
  | nil => rfl
  | append_singleton digits c ih =>
      rw [List.forall_mem_append, List.forall_mem_singleton] at same
      rw [List.map_append, List.map_singleton, numberIn_concat, numberIn_concat, ih same.1, same.2]

/-- Zeros in front do not count. -/
theorem numberIn_zeros (zeros : Nat) (digits : List Char) :
    numberIn base (List.replicate zeros '0' ++ digits) = numberIn base digits := by
  have zero : (digit? base '0').getD 0 = 0 := by
    show ((some 0).filter (· < base)).getD 0 = 0
    rw [Option.filter_some]
    split <;> rfl
  have step : ∀ n, numberIn base ('0' :: n) = numberIn base n := by
    intro n
    show n.foldl _ (0 * base + (digit? base '0').getD 0) = numberIn base n
    rw [zero, Nat.zero_mul]
    rfl
  induction zeros with
  | zero => rfl
  | succ zeros ih => rw [List.replicate_succ, List.cons_append, step, ih]

/-- As many digits stand for a number below the power. -/
theorem numberIn_lt (some_digit : 0 < base) (digits : List Char) :
    numberIn base digits < base ^ digits.length := by
  induction digits using List.reverseRecOn with
  | nil => exact Nat.one_pos
  | append_singleton digits c ih =>
      have last : (digit? base c).getD 0 < base := by
        cases read : digit? base c with
        | none => exact some_digit
        | some d => exact of_decide_eq_true (Option.filter_eq_some_iff.1 read).2
      rw [numberIn_concat, List.length_append, List.length_singleton, Nat.pow_succ]
      calc numberIn base digits * base + (digit? base c).getD 0
          < numberIn base digits * base + base := Nat.add_lt_add_left last _
        _ = (numberIn base digits + 1) * base := (Nat.succ_mul _ _).symm
        _ ≤ base ^ digits.length * base := Nat.mul_le_mul_right base ih

end Renumber.Text
