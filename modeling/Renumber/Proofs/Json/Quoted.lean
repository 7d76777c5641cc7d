import Renumber.Json.Printer
import Renumber.Json.Reader

/-!
# Strings in quotes

A text in quotes is read back, and what follows the closing quote is left. No quoted text
holds a control character, so it never runs over a line.
-/

namespace Renumber.Json

/-- A character in front of what is read next. -/
def withChar (c : Char) : List Char × List Char → List Char × List Char :=
  fun (s, rest) => (c :: s, rest)

theorem readQuoted_escape {e c : Char} (simple : simpleEscape? e = some c) (rest : List Char) :
    readQuoted ('\\' :: e :: rest) = (readQuoted rest).map (withChar c) := by
  have not_unit : e ≠ 'u' := by
    rintro rfl
    cases simple
  rw [readQuoted]
  · simp only [simple]
    rfl
  · intro a b c d rest same
    cases same
    exact absurd rfl not_unit

theorem readQuoted_unit {a b c d : Char} {n : Nat} (unit : hexUnit? a b c d = some n)
    (small : n < 0xD800) (rest : List Char) :
    readQuoted ('\\' :: 'u' :: a :: b :: c :: d :: rest) =
      (readQuoted rest).map (withChar (Char.ofNat n)) := by
  have not_low : isLowHalf n = false := by
    rw [isLowHalf, decide_eq_false (by omega), Bool.false_and]
  have not_high : isHighHalf n = false := by
    rw [isHighHalf, decide_eq_false (by omega), Bool.false_and]
  rw [readQuoted]
  simp only [unit, not_low, not_high, Bool.false_eq_true, ↓reduceIte]
  rfl

theorem readQuoted_plain {c : Char} (not_quote : c ≠ '"') (not_slash : c ≠ '\\')
    (printed : 0x20 ≤ c.toNat) (rest : List Char) :
    readQuoted (c :: rest) = (readQuoted rest).map (withChar c) := by
  rw [readQuoted]
  · rw [if_neg (by simp only [not_slash, false_or]; omega)]
    rfl
  · exact not_quote
  · intro _ _ _ _ _ same
    exact absurd same not_slash
  · intro _ _ same
    exact absurd same not_slash

/-- The escape of a control character has its number in hexadecimal digits. -/
theorem hexUnit?_control : ∀ n : Fin 32,
    hexUnit? '0' '0' (hexDigit (n.val / 16)) (hexDigit n.val) = some n.val := by
  decide

/-- A character that is written inside quotes is read as itself. -/
theorem readQuoted_escapeChar (c : Char) (rest : List Char) :
    readQuoted (escapeChar c ++ rest) = (readQuoted rest).map (withChar c) := by
  have of_number : ∀ n, c.toNat = n → Char.ofNat n = c := by
    intro n same
    rw [← same, Char.ofNat_toNat]
  rw [escapeChar]
  split
  · next same => exact readQuoted_escape (by rw [same]; rfl) rest
  split
  · next same => exact readQuoted_escape (by rw [same]; rfl) rest
  split
  · next same => exact readQuoted_escape (by rw [same]; rfl) rest
  split
  · next same => exact readQuoted_escape (by rw [same]; rfl) rest
  split
  · next same => exact readQuoted_escape (by rw [same]; rfl) rest
  split
  · next number => exact readQuoted_escape (by rw [← of_number 8 number]; rfl) rest
  split
  · next number => exact readQuoted_escape (by rw [← of_number 12 number]; rfl) rest
  split
  · next control =>
    have unit := hexUnit?_control ⟨c.toNat, control⟩
    refine (readQuoted_unit unit (by simp only; omega) rest).trans ?_
    rw [Char.ofNat_toNat]
  · next not_quote not_slash _ _ _ _ _ printed =>
    exact readQuoted_plain not_quote not_slash (by omega) rest

/-- A text inside quotes is read up to the closing quote. -/
theorem readQuoted_flatMap (s rest : List Char) :
    readQuoted (s.flatMap escapeChar ++ '"' :: rest) = some (s, rest) := by
  induction s with
  | nil => rw [List.flatMap_nil, List.nil_append, readQuoted]
  | cons c s ih => rw [List.flatMap_cons, List.append_assoc, readQuoted_escapeChar, ih]; rfl

/-- A value in quotes at the front, blanks aside, is read with what follows it left. -/
theorem readFront?_quoted {text : List Char} {s rest : List Char}
    (front : skipGaps text = quoted s ++ rest) :
    readFront? text = some (.text (String.ofList s), rest) := by
  have opened : skipGaps text = '"' :: (s.flatMap escapeChar ++ '"' :: rest) := by
    rw [front, quoted, List.cons_append, List.append_assoc]
    rfl
  rw [readFront?, readValue, opened]
  simp only [readQuoted_flatMap, Option.map_some]

theorem skipGaps_quoted (s rest : List Char) : skipGaps (quoted s ++ rest) = quoted s ++ rest := rfl

/-- A text that is a string in quotes, with blanks in front, is that string. -/
theorem parse?_quoted {text : List Char} {s : List Char} (front : skipGaps text = quoted s) :
    parse? text = some (.text (String.ofList s)) := by
  rw [parse?, readFront?_quoted (by rw [front, List.append_nil])]
  rfl

theorem printed_hexDigit (n : Nat) : 0x20 ≤ (hexDigit n).toNat := by
  have all : ∀ k : Fin 16, 0x20 ≤ (Nat.digitChar k.val).toNat := by decide
  exact all ⟨n % 16, Nat.mod_lt n (by decide)⟩

theorem printed_of_all {s : List Char} (all : s.all (fun c => decide (0x20 ≤ c.toNat)) = true) :
    ∀ c ∈ s, 0x20 ≤ c.toNat := by
  intro c member
  exact of_decide_eq_true (List.all_eq_true.1 all c member)

theorem printed_escapeChar (c : Char) : ∀ d ∈ escapeChar c, 0x20 ≤ d.toNat := by
  rw [escapeChar]
  split
  · exact printed_of_all rfl
  split
  · exact printed_of_all rfl
  split
  · exact printed_of_all rfl
  split
  · exact printed_of_all rfl
  split
  · exact printed_of_all rfl
  split
  · exact printed_of_all rfl
  split
  · exact printed_of_all rfl
  split
  · have opening : ∀ d ∈ ['\\', 'u', '0', '0'], 0x20 ≤ d.toNat := printed_of_all rfl
    apply List.forall_mem_append.2 ⟨opening, ?_⟩
    exact List.forall_mem_cons.2 ⟨printed_hexDigit _, List.forall_mem_singleton.2 (printed_hexDigit _)⟩
  · simp only [List.forall_mem_singleton]
    omega

/-- Nothing in quotes is a control character. -/
theorem printed_of_mem_quoted {s : List Char} {c : Char} (member : c ∈ quoted s) :
    0x20 ≤ c.toNat := by
  rw [quoted, List.mem_cons, List.mem_append, List.mem_flatMap, List.mem_singleton] at member
  obtain rfl | ⟨d, -, inside⟩ | rfl := member
  · decide
  · exact printed_escapeChar d c inside
  · decide

end Renumber.Json
