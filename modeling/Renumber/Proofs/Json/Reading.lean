import Mathlib.Algebra.Group.Nat.Defs
import Renumber.Proofs.Json.Quoted
import Renumber.Proofs.Outcome
import Renumber.Proofs.Text.Digit

/-!
# Objects of plain values

An object whose fields are texts, small numbers, truth values or `null` is read back from its
compact form, and what follows it is left. A number needs that nothing follows which could go
on with it; inside an object there is always a comma or a brace.
-/

namespace Renumber.Json

open Renumber.Outcome (bind_of_some)

/-! ## Numbers -/

/-- A number other than zero has no zero in front. -/
theorem head?_toDigits_ne {n : Nat} (positive : 0 < n) : (Nat.toDigits 10 n).head? ≠ some '0' := by
  induction n using Nat.strongRecOn with
  | ind n ih =>
      by_cases single : n < 10
      · rw [Nat.toDigits_of_lt_base single, List.head?_cons]
        have table : ∀ d : Fin 10, 0 < d.val → some (Nat.digitChar d.val) ≠ some '0' := by decide
        exact table ⟨n, single⟩ positive
      · have earlier := ih (n / 10) (Nat.div_lt_self positive (by decide)) (by omega)
        rw [Nat.toDigits_of_base_le (by decide) (by omega)]
        obtain ⟨c, more, shape⟩ := List.exists_cons_of_ne_nil (Nat.toDigits_ne_nil (n := n / 10) (b := 10))
        rw [shape] at earlier ⊢
        exact earlier

theorem lt_pow_sub_pow {n small large : Nat} (word : n < 2 ^ 32) (wide : 32 ≤ small)
    (less : small < large) : n < Nat.pow 2 large - Nat.pow 2 small := by
  have double : Nat.pow 2 small * 2 ≤ Nat.pow 2 large :=
    Nat.pow_le_pow_right (n := 2) (by decide) less
  have power : 2 ^ 32 ≤ Nat.pow 2 small := Nat.pow_le_pow_right (by decide) wide
  omega

/-- Numbers of 32 bits are within the range of double precision. -/
theorem isFinite_word {n : Nat} (word : n < 2 ^ 32) : isFinite n 0 = true := by
  have large : n < doubleLimit := by
    unfold doubleLimit
    -- The exponents are kept apart from the powers, which are too great to be evaluated.
    generalize low : 970 = small
    generalize high : 1024 = large
    exact lt_pow_sub_pow word (by omega) (by omega)
  rw [isFinite]
  split
  next => rfl
  next =>
    rw [if_neg (by decide), if_pos (by decide)]
    apply decide_eq_true
    rw [show Nat.pow 10 (Int.toNat 0) = 1 from rfl, Nat.mul_one]
    exact large

/-- No character in front could go on with a number. -/
def EndsNumber (rest : List Char) : Prop :=
  ∀ c, rest.head? = some c → c.isDigit = false ∧ c ≠ '.' ∧ c ≠ 'e' ∧ c ≠ 'E'

theorem endsNumber_cons {c : Char} (rest : List Char)
    (ends : c.isDigit = false ∧ c ≠ '.' ∧ c ≠ 'e' ∧ c ≠ 'E') : EndsNumber (c :: rest) := by
  intro d first
  cases first
  exact ends

theorem readFraction_none {rest : List Char} (ends : EndsNumber rest) :
    readFraction rest = some ([], rest) := by
  rw [readFraction]
  intro rest' same
  exact (ends '.' (by rw [same]; rfl)).2.1 rfl

theorem readExponent_none {rest : List Char} (ends : EndsNumber rest) :
    readExponent rest = some (none, rest) := by
  have small : ∀ rest', rest ≠ 'e' :: rest' := by
    rintro rest' rfl
    exact (ends 'e' rfl).2.2.1 rfl
  have great : ∀ rest', rest ≠ 'E' :: rest' := by
    rintro rest' rfl
    exact (ends 'E' rfl).2.2.2 rfl
  rw [readExponent]
  · exact small
  · exact great

theorem readNumber_digits {n : Nat} (word : n < 2 ^ 32) {rest : List Char} (ends : EndsNumber rest) :
    readNumber (Nat.toDigits 10 n ++ rest) = some (.whole n, rest) := by
  have digit : ∀ c ∈ Nat.toDigits 10 n, c.isDigit = true := fun c member =>
    Nat.isDigit_of_mem_toDigits (by decide) (by decide) member
  have taken : (Nat.toDigits 10 n ++ rest).takeWhile Char.isDigit = Nat.toDigits 10 n :=
    Text.takeWhile_run digit fun c first => (ends c first).1
  have value : Text.numberIn 10 (Nat.toDigits 10 n) = n :=
    Text.numberIn_toDigits (by decide) (by decide)
  have some_digit : (Nat.toDigits 10 n).isEmpty = false :=
    List.isEmpty_eq_false_iff.2 Nat.toDigits_ne_nil
  have unsigned : ∀ rest', Nat.toDigits 10 n ++ rest ≠ '-' :: rest' := by
    intro rest' same
    obtain ⟨c, more, shape⟩ := List.exists_cons_of_ne_nil (Nat.toDigits_ne_nil (n := n) (b := 10))
    have first := digit c (by rw [shape]; exact List.mem_cons_self)
    rw [shape] at same
    rw [(List.cons.inj same).1] at first
    cases first
  have short : (Nat.toDigits 10 n).length = 1 ∨ (Nat.toDigits 10 n).head? ≠ some '0' := by
    by_cases zero : n = 0
    · left
      rw [zero]
      rfl
    · exact .inr (head?_toDigits_ne (Nat.pos_of_ne_zero zero))
  have plain : guard ((!(Nat.toDigits 10 n).isEmpty && (decide ((Nat.toDigits 10 n).length = 1) ||
      (Nat.toDigits 10 n).head? != some '0')) = true) = some () := by
    apply if_pos
    rw [some_digit, Bool.not_false, Bool.true_and, Bool.or_eq_true, decide_eq_true_eq, bne_iff_ne]
    exact short
  have unbroken : readFraction (List.drop (Nat.toDigits 10 n).length (Nat.toDigits 10 n ++ rest)) =
      some ([], rest) := by
    rw [List.drop_left]
    exact readFraction_none ends
  have finite : guard (isFinite (Text.numberIn 10 (Nat.toDigits 10 n ++ []))
      (0 - ([] : List Char).length) = true) = some () := by
    rw [List.append_nil, value]
    exact if_pos (isFinite_word word)
  rw [readNumber.eq_def]
  split
  next negative body parted =>
  have whole : (false, Nat.toDigits 10 n ++ rest) = (negative, body) := by
    rw [← parted]
    split
    · next dash => exact absurd dash (unsigned _)
    · rfl
  cases whole
  rw [taken]
  refine (bind_of_some plain _).trans ?_
  refine (bind_of_some unbroken _).trans ?_
  refine (bind_of_some (readExponent_none ends) _).trans ?_
  exact (bind_of_some finite _).trans (congrArg (fun m => some (Number.whole m, rest)) value)

/-! ## Plain values -/

/-- Values without parts, with numbers of 32 bits. -/
inductive Plain : Json → Prop where
  | null : Plain .null
  | bool (b : Bool) : Plain (.bool b)
  | word {n : Nat} (small : n < 2 ^ 32) : Plain (ofNat n)
  | text (s : String) : Plain (.text s)

theorem skipGaps_of_head {c : Char} {s : List Char} (printed : isGap c = false) :
    skipGaps (c :: s) = c :: s := by
  rw [skipGaps, List.dropWhile_cons, printed]
  rfl

theorem isGap_of_isDigit {c : Char} (digit : c.isDigit = true) : isGap c = false := by
  have other : ∀ d : Char, d.isDigit = false → c ≠ d := by
    rintro d plain rfl
    rw [digit] at plain
    cases plain
  simp [isGap, other]

/-- A plain value is read, and what follows it is left. -/
theorem readValue_plain {v : Json} (plain : Plain v) (fuel depth : Nat) {rest : List Char}
    (ends : EndsNumber rest) : readValue (fuel + 1) depth (v.chars ++ rest) = some (v, rest) := by
  cases plain with
  | null => rfl
  | bool b => cases b <;> rfl
  | text s =>
      have opened : skipGaps ((Json.text s).chars ++ rest) =
          '"' :: (s.toList.flatMap escapeChar ++ '"' :: rest) := by
        rw [chars, skipGaps_quoted, quoted, List.cons_append, List.append_assoc]
        rfl
      rw [readValue, opened]
      simp only [readQuoted_flatMap, Option.map_some, String.ofList_toList]
  | @word n small =>
      obtain ⟨c, more, shape⟩ := List.exists_cons_of_ne_nil (Nat.toDigits_ne_nil (n := n) (b := 10))
      have digit : c.isDigit = true := by
        apply Nat.isDigit_of_mem_toDigits (b := 10) (n := n) (by decide) (by decide)
        rw [shape]
        exact List.mem_cons_self
      have other : ∀ d : Char, d.isDigit = false → ∀ s, c :: (more ++ rest) ≠ d :: s := by
        intro d plain s same
        rw [(List.cons.inj same).1, plain] at digit
        cases digit
      have opened : skipGaps ((ofNat n).chars ++ rest) = c :: (more ++ rest) := by
        show skipGaps (Nat.toDigits 10 n ++ rest) = _
        rw [shape]
        exact skipGaps_of_head (isGap_of_isDigit digit)
      have read := readNumber_digits small ends
      rw [shape] at read
      rw [readValue, opened]
      split
      next same => exact absurd same (other _ rfl _)
      next same => exact absurd same (other _ rfl _)
      next same => exact absurd same (other _ rfl _)
      next same => exact absurd same (other _ rfl _)
      next same => exact absurd same (other _ rfl _)
      next same => exact absurd same (other _ rfl _)
      next =>
        rw [List.cons_append] at read
        rw [read]
        rfl

/-! ## Objects -/

theorem readQuoted_name (name : String) (rest : List Char) :
    ∃ more, skipGaps (quoted name.toList ++ rest) = '"' :: more ∧
      readQuoted more = some (name.toList, rest) := by
  refine ⟨name.toList.flatMap escapeChar ++ '"' :: rest, ?_, readQuoted_flatMap _ _⟩
  rw [skipGaps_quoted, quoted, List.cons_append, List.append_assoc]
  rfl

/-- The fields of an object are read up to the closing brace. -/
theorem readFields_plain {fields : List (String × Json)} (some_field : fields ≠ [])
    (plain : ∀ field ∈ fields, Plain field.2) {fuel : Nat} (enough : fields.length ≤ fuel)
    (depth : Nat) (rest : List Char) :
    readFields (fuel + 1) depth (fieldChars fields ++ rest) = some (fields, rest) := by
  induction fields generalizing fuel with
  | nil => exact absurd rfl some_field
  | cons field fields ih =>
      obtain ⟨name, v⟩ := field
      obtain ⟨own, others⟩ := List.forall_mem_cons.1 plain
      obtain ⟨fuel, rfl⟩ : ∃ k, fuel = k + 1 :=
        Nat.exists_eq_succ_of_ne_zero (Nat.ne_of_gt (Nat.lt_of_lt_of_le (Nat.succ_pos _) enough))
      cases fields with
      | nil =>
          have text : fieldChars [(name, v)] ++ rest =
              quoted name.toList ++ ':' :: (v.chars ++ ('}' :: rest)) := by
            simp [fieldChars]
          obtain ⟨more, opened, named⟩ := readQuoted_name name (':' :: (v.chars ++ ('}' :: rest)))
          have value := readValue_plain own fuel depth (endsNumber_cons rest (c := '}') (by decide))
          have colon : skipGaps (':' :: (v.chars ++ '}' :: rest)) = ':' :: (v.chars ++ '}' :: rest) := rfl
          have brace : skipGaps ('}' :: rest) = '}' :: rest := rfl
          rw [text, readFields, opened]
          simp only [named, colon, value, brace, String.ofList_toList]
      | cons next fields =>
          have text : fieldChars ((name, v) :: next :: fields) ++ rest =
              quoted name.toList ++ ':' :: (v.chars ++ (',' :: (fieldChars (next :: fields) ++ rest))) := by
            simp [fieldChars]
          generalize fieldChars (next :: fields) ++ rest = behind at text ih
          obtain ⟨more, opened, named⟩ := readQuoted_name name (':' :: (v.chars ++ (',' :: behind)))
          have value := readValue_plain own fuel depth (endsNumber_cons behind (c := ',') (by decide))
          have colon : skipGaps (':' :: (v.chars ++ ',' :: behind)) = ':' :: (v.chars ++ ',' :: behind) := rfl
          have comma : skipGaps (',' :: behind) = ',' :: behind := rfl
          have later := ih (List.cons_ne_nil _ _) others (Nat.le_of_succ_le_succ enough)
          rw [text, readFields, opened]
          simp only [named, colon, value, comma, later, Option.map_some, String.ofList_toList]

theorem length_fieldChars (fields : List (String × Json)) : fields.length ≤ (fieldChars fields).length := by
  induction fields with
  | nil => exact Nat.zero_le _
  | cons field fields ih =>
      obtain ⟨name, v⟩ := field
      cases fields with
      | nil => simp [fieldChars, quoted]
      | cons next fields =>
          have text : fieldChars ((name, v) :: next :: fields) =
              quoted name.toList ++ ':' :: (v.chars ++ ',' :: fieldChars (next :: fields)) := by
            simp [fieldChars]
          rw [text]
          simp only [List.length_append, List.length_cons] at ih ⊢
          omega

/-- An object of plain fields at the front of a text is read, and what follows it is left. -/
theorem readFront?_object {fields : List (String × Json)} (some_field : fields ≠ [])
    (plain : ∀ field ∈ fields, Plain field.2) {text rest : List Char}
    (front : skipGaps text = (Json.object fields).chars ++ rest) :
    readFront? text = some (.object fields, rest) := by
  have opened : skipGaps text = '{' :: (fieldChars fields ++ rest) := by
    rw [front, chars]
    rfl
  have name_first : ∃ c more, fieldChars fields ++ rest = c :: more ∧ c = '"' := by
    obtain ⟨⟨name, v⟩, more, rfl⟩ := List.exists_cons_of_ne_nil some_field
    cases more with
    | nil => exact ⟨_, _, by rw [fieldChars, quoted]; rfl, rfl⟩
    | cons next more => exact ⟨_, _, by simp only [fieldChars, quoted, List.cons_append]; rfl, rfl⟩
  have enough : fields.length ≤ 2 * text.length := by
    have short : (skipGaps text).length ≤ text.length := (List.dropWhile_sublist _).length_le
    have long := length_fieldChars fields
    rw [opened, List.length_cons, List.length_append] at short
    omega
  have read := readFields_plain some_field plain enough (maxDepth - 1) rest
  obtain ⟨c, more, shape, rfl⟩ := name_first
  have quote : skipGaps ('"' :: more) = '"' :: more := rfl
  rw [readFront?, readValue, opened]
  rw [shape] at read ⊢
  simp only [maxDepth, quote]
  exact (congrArg (Option.map _) read).trans rfl

theorem skipGaps_object (fields : List (String × Json)) (rest : List Char) :
    skipGaps ((Json.object fields).chars ++ rest) = (Json.object fields).chars ++ rest := by
  rw [chars]
  rfl

/-- An object of plain fields that stands alone, with blanks in front, is read. -/
theorem parse?_object {fields : List (String × Json)} (some_field : fields ≠ [])
    (plain : ∀ field ∈ fields, Plain field.2) {text : List Char}
    (front : skipGaps text = (Json.object fields).chars) : parse? text = some (.object fields) := by
  rw [parse?, readFront?_object some_field plain (by rw [front, List.append_nil])]
  rfl

/-! ## Characters -/

/-- An object ends with its brace. -/
theorem getLast?_fieldChars (fields : List (String × Json)) :
    (fieldChars fields).getLast? = some '}' := by
  induction fields with
  | nil => rfl
  | cons field fields ih =>
      obtain ⟨name, v⟩ := field
      cases fields with
      | nil =>
          have text : fieldChars [(name, v)] = quoted name.toList ++ ':' :: v.chars ++ ['}'] := by
            simp [fieldChars]
          rw [text, List.getLast?_concat]
      | cons next fields =>
          have text : fieldChars ((name, v) :: next :: fields) =
              (quoted name.toList ++ ':' :: (v.chars ++ [','])) ++ fieldChars (next :: fields) := by
            simp [fieldChars]
          rw [text, List.getLast?_append, ih]
          rfl

theorem printed_toDigits (n : Nat) : ∀ c ∈ Nat.toDigits 10 n, 0x20 ≤ c.toNat := by
  intro c member
  have digit := Nat.isDigit_of_mem_toDigits (b := 10) (n := n) (by decide) (by decide) member
  have bounds : 48 ≤ c.toNat ∧ c.toNat ≤ 57 := by
    simpa [Char.isDigit, UInt32.le_iff_toNat_le] using digit
  omega

theorem Plain.printed {v : Json} (plain : Plain v) : ∀ c ∈ v.chars, 0x20 ≤ c.toNat := by
  cases plain with
  | null => exact printed_of_all rfl
  | bool b => cases b <;> exact printed_of_all rfl
  | word small => exact printed_toDigits _
  | text s => exact fun c member => printed_of_mem_quoted member

/-- An object of plain fields holds no control character. -/
theorem printed_fieldChars {fields : List (String × Json)}
    (plain : ∀ field ∈ fields, Plain field.2) : ∀ c ∈ fieldChars fields, 0x20 ≤ c.toNat := by
  have mark : ∀ c, c = ':' ∨ c = ',' ∨ c = '}' → 0x20 ≤ c.toNat := by
    rintro c (rfl | rfl | rfl) <;> decide
  induction fields with
  | nil => exact printed_of_all rfl
  | cons field fields ih =>
      obtain ⟨name, v⟩ := field
      obtain ⟨own, others⟩ := List.forall_mem_cons.1 plain
      have named : ∀ c ∈ quoted name.toList, 0x20 ≤ c.toNat := fun c => printed_of_mem_quoted
      have value := own.printed
      cases fields with
      | nil =>
          simp only [fieldChars, List.forall_mem_append, List.forall_mem_cons, List.not_mem_nil,
            false_imp_iff, implies_true, and_true]
          exact ⟨named, mark ':' (.inl rfl), value, mark '}' (.inr (.inr rfl))⟩
      | cons next fields =>
          simp only [fieldChars, List.forall_mem_append, List.forall_mem_cons]
          exact ⟨named, mark ':' (.inl rfl), value, mark ',' (.inr (.inl rfl)), ih others⟩

end Renumber.Json
