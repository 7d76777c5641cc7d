import Renumber.Path.Basic

/-!
# Text and its bytes

Reading the bytes of a text gives the text again, whatever follows them. In particular a
path that was written as a string can be read as that string.
-/

namespace Renumber.Text

/-! ## Lead bytes -/

theorem plain_ofNat (n : Fin 256) : UInt8.ofNat n.val < 0x80 ↔ n.val < 0x80 := by
  rw [UInt8.lt_iff_toNat_lt, UInt8.toNat_ofNat', Nat.mod_eq_of_lt n.isLt]
  rfl

theorem leadBounds_ofNat {n : Nat} (small : n < 256) : leadBounds (UInt8.ofNat n) =
    if n < 0xC2 then none
    else if n < 0xE0 then some (0x80, 0xBF, 0)
    else if n = 0xE0 then some (0xA0, 0xBF, 1)
    else if n = 0xED then some (0x80, 0x9F, 1)
    else if n < 0xF0 then some (0x80, 0xBF, 1)
    else if n = 0xF0 then some (0x90, 0xBF, 2)
    else if n < 0xF4 then some (0x80, 0xBF, 2)
    else if n = 0xF4 then some (0x80, 0x8F, 2)
    else none := by
  simp only [leadBounds, UInt8.lt_iff_toNat_lt, ← UInt8.toNat_inj, UInt8.toNat_ofNat',
    Nat.mod_eq_of_lt small]
  rfl

theorem leadBounds_two : ∀ n : Fin 256, 0xC2 ≤ n.val → n.val < 0xE0 →
    leadBounds (UInt8.ofNat n.val) = some (0x80, 0xBF, 0) := by
  intro n least greatest
  rw [leadBounds_ofNat n.isLt, if_neg (by omega), if_pos greatest]

theorem leadBounds_three : ∀ n : Fin 256, 0xE0 ≤ n.val → n.val < 0xF0 →
    leadBounds (UInt8.ofNat n.val) =
      some (if n.val = 0xE0 then 0xA0 else 0x80, if n.val = 0xED then 0x9F else 0xBF, 1) := by
  intro n least greatest
  rw [leadBounds_ofNat n.isLt, if_neg (by omega), if_neg (by omega)]
  split
  next first =>
    rw [if_neg (by omega)]
  next => split <;> rfl

theorem leadBounds_four : ∀ n : Fin 256, 0xF0 ≤ n.val → n.val < 0xF5 →
    leadBounds (UInt8.ofNat n.val) =
      some (if n.val = 0xF0 then 0x90 else 0x80, if n.val = 0xF4 then 0x8F else 0xBF, 2) := by
  intro n least greatest
  rw [leadBounds_ofNat n.isLt, if_neg (by omega), if_neg (by omega), if_neg (by omega),
    if_neg (by omega), if_neg (by omega)]
  split
  next first => rw [if_neg (by omega)]
  next =>
    split
    next => rw [if_neg (by omega)]
    next => rw [if_pos (by omega), if_pos (by omega)]

theorem isTail_ofNat : ∀ n : Fin 64, isTail (UInt8.ofNat (n.val + 0x80)) = true := by
  decide

theorem tailBits_ofNat : ∀ n : Fin 64, tailBits (UInt8.ofNat (n.val + 0x80)) = n.val := by
  decide

/-! ## Characters by their length -/

/-- The second byte of a character lies between the bounds that the first one sets. -/
theorem inside_bounds (low high : Nat) {k : Nat} (least : low ≤ k) (greatest : k ≤ high)
    (small : high < 256) :
    (decide (UInt8.ofNat k < UInt8.ofNat low) || decide (UInt8.ofNat high < UInt8.ofNat k)) =
      false := by
  simp only [Bool.or_eq_false_iff, decide_eq_false_iff_not, UInt8.lt_iff_toNat_lt,
    UInt8.toNat_ofNat']
  omega

theorem pieces_one {n : Nat} (plain : n < 0x80) (rest : List UInt8) :
    pieces (UInt8.ofNat n :: rest) = some (Char.ofNat n) :: pieces rest := by
  have below := (plain_ofNat ⟨n, by omega⟩).2 plain
  rw [pieces.eq_def]
  simp only at below ⊢
  rw [if_pos below, UInt8.toNat_ofNat', Nat.mod_eq_of_lt (by omega)]

theorem pieces_two {m k : Nat} (lead : 2 ≤ m ∧ m < 32) (tail : k < 64) (rest : List UInt8) :
    pieces (UInt8.ofNat (m + 0xC0) :: UInt8.ofNat (k + 0x80) :: rest) =
      some (Char.ofNat (m * 64 + k)) :: pieces rest := by
  have high : ¬UInt8.ofNat (m + 0xC0) < 0x80 :=
    mt (plain_ofNat ⟨m + 0xC0, by omega⟩).1 (by simp only; omega)
  have bounds := leadBounds_two ⟨m + 0xC0, by omega⟩ (by simp only; omega) (by simp only; omega)
  have inside : (decide (UInt8.ofNat (k + 0x80) < 0x80) || decide (0xBF < UInt8.ofNat (k + 0x80))) =
      false := inside_bounds 0x80 0xBF (by omega) (by omega) (by decide)
  have bits := tailBits_ofNat ⟨k, tail⟩
  have payload : (UInt8.ofNat (m + 0xC0)).toNat % 32 = m := by
    rw [UInt8.toNat_ofNat']
    omega
  rw [pieces.eq_def]
  simp only [high, bounds, inside, bits, payload, ↓reduceIte, Bool.false_eq_true]

theorem pieces_three {m k l : Nat} (lead : m < 16) (second : k < 64) (third : l < 64)
    (least : m = 0 → 32 ≤ k) (greatest : m = 13 → k < 32) (rest : List UInt8) :
    pieces (UInt8.ofNat (m + 0xE0) :: UInt8.ofNat (k + 0x80) :: UInt8.ofNat (l + 0x80) :: rest) =
      some (Char.ofNat (m * 4096 + k * 64 + l)) :: pieces rest := by
  have high : ¬UInt8.ofNat (m + 0xE0) < 0x80 :=
    mt (plain_ofNat ⟨m + 0xE0, by omega⟩).1 (by simp only; omega)
  have bounds := leadBounds_three ⟨m + 0xE0, by omega⟩ (by simp only; omega) (by simp only; omega)
  obtain ⟨low, top, found, inside⟩ : ∃ low top,
      leadBounds (UInt8.ofNat (m + 0xE0)) = some (low, top, 1) ∧
        (decide (UInt8.ofNat (k + 0x80) < low) || decide (top < UInt8.ofNat (k + 0x80))) = false := by
    refine ⟨_, _, bounds, ?_⟩
    by_cases first : m = 0
    · subst first
      exact inside_bounds 0xA0 0xBF (by omega) (by omega) (by decide)
    · by_cases last : m = 13
      · subst last
        exact inside_bounds 0x80 0x9F (by omega) (by omega) (by decide)
      · rw [if_neg (by simp only; omega), if_neg (by simp only; omega)]
        exact inside_bounds 0x80 0xBF (by omega) (by omega) (by decide)
  have bits := tailBits_ofNat ⟨k, second⟩
  have bits' := tailBits_ofNat ⟨l, third⟩
  have follows := isTail_ofNat ⟨l, third⟩
  have payload : (UInt8.ofNat (m + 0xE0)).toNat % 16 = m := by
    rw [UInt8.toNat_ofNat']
    omega
  rw [pieces.eq_def]
  simp only [high, found, inside, bits, bits', follows, payload, ↓reduceIte, Bool.false_eq_true,
    Bool.not_true, Nat.one_ne_zero]

theorem pieces_four {m k l o : Nat} (lead : m < 5) (second : k < 64) (third : l < 64)
    (fourth : o < 64) (least : m = 0 → 16 ≤ k) (greatest : m = 4 → k < 16) (rest : List UInt8) :
    pieces (UInt8.ofNat (m + 0xF0) :: UInt8.ofNat (k + 0x80) :: UInt8.ofNat (l + 0x80) ::
        UInt8.ofNat (o + 0x80) :: rest) =
      some (Char.ofNat (m * 262144 + k * 4096 + l * 64 + o)) :: pieces rest := by
  have high : ¬UInt8.ofNat (m + 0xF0) < 0x80 :=
    mt (plain_ofNat ⟨m + 0xF0, by omega⟩).1 (by simp only; omega)
  have bounds := leadBounds_four ⟨m + 0xF0, by omega⟩ (by simp only; omega) (by simp only; omega)
  obtain ⟨low, top, found, inside⟩ : ∃ low top,
      leadBounds (UInt8.ofNat (m + 0xF0)) = some (low, top, 2) ∧
        (decide (UInt8.ofNat (k + 0x80) < low) || decide (top < UInt8.ofNat (k + 0x80))) = false := by
    refine ⟨_, _, bounds, ?_⟩
    by_cases first : m = 0
    · subst first
      exact inside_bounds 0x90 0xBF (by omega) (by omega) (by decide)
    · by_cases last : m = 4
      · subst last
        exact inside_bounds 0x80 0x8F (by omega) (by omega) (by decide)
      · rw [if_neg (by simp only; omega), if_neg (by simp only; omega)]
        exact inside_bounds 0x80 0xBF (by omega) (by omega) (by decide)
  have bits := tailBits_ofNat ⟨k, second⟩
  have bits' := tailBits_ofNat ⟨l, third⟩
  have bits'' := tailBits_ofNat ⟨o, fourth⟩
  have follows := isTail_ofNat ⟨l, third⟩
  have follows' := isTail_ofNat ⟨o, fourth⟩
  have payload : (UInt8.ofNat (m + 0xF0)).toNat % 8 = m := by
    rw [UInt8.toNat_ofNat']
    omega
  have two_ne_one : ¬(2 : Nat) = 1 := by decide
  have two_ne_zero : ¬(2 : Nat) = 0 := by decide
  rw [pieces.eq_def]
  simp only [high, found, inside, bits, bits', bits'', follows, follows', payload, ↓reduceIte,
    Bool.false_eq_true, Bool.not_true, two_ne_zero, two_ne_one]

/-! ## Texts -/

/-- The bytes of a character are read as that character. -/
theorem pieces_encodeChar (c : Char) (rest : List UInt8) :
    pieces (String.utf8EncodeChar c ++ rest) = some c :: pieces rest := by
  have valid : c.toNat < 0xD800 ∨ 0xDFFF < c.toNat ∧ c.toNat < 0x110000 := c.valid
  have same : Char.ofNat c.toNat = c := Char.ofNat_toNat c
  have value : c.val.toNat = c.toNat := rfl
  rw [String.utf8EncodeChar]
  simp only [value]
  generalize c.toNat = n at valid same
  subst same
  split
  · exact pieces_one (by omega) rest
  split
  · refine (pieces_two (m := n / 64 % 32) (k := n % 64) (by omega) (by omega) rest).trans ?_
    rw [show n / 64 % 32 * 64 + n % 64 = n by omega]
  split
  · refine (pieces_three (m := n / 4096 % 16) (k := n / 64 % 64) (l := n % 64) (by omega) (by omega)
      (by omega) (by omega) (by omega) rest).trans ?_
    rw [show n / 4096 % 16 * 4096 + n / 64 % 64 * 64 + n % 64 = n by omega]
  · refine (pieces_four (m := n / 262144 % 8) (k := n / 4096 % 64) (l := n / 64 % 64) (o := n % 64)
      (by omega) (by omega) (by omega) (by omega) (by omega) (by omega) rest).trans ?_
    rw [show n / 262144 % 8 * 262144 + n / 4096 % 64 * 4096 + n / 64 % 64 * 64 + n % 64 = n by omega]

theorem encodeChar_ne_nil (c : Char) : String.utf8EncodeChar c ≠ [] := by
  intro none
  have read := pieces_encodeChar c []
  rw [none] at read
  cases read

theorem encodeChar_plain {c : Char} (plain : c.toNat < 0x80) :
    String.utf8EncodeChar c = [UInt8.ofNat c.toNat] := by
  have below : c.val.toNat ≤ 0x7F := by
    change c.toNat ≤ 0x7F
    omega
  rw [String.utf8EncodeChar]
  simp only [below, ↓reduceIte]
  rfl

/-- No byte of a longer character is a character by itself. -/
theorem high_of_mem_encodeChar {c : Char} (long : 0x80 ≤ c.toNat) {b : UInt8}
    (member : b ∈ String.utf8EncodeChar c) : 0x80 ≤ b.toNat := by
  have above : ¬c.val.toNat ≤ 0x7F := by
    change ¬c.toNat ≤ 0x7F
    omega
  rw [String.utf8EncodeChar] at member
  simp only [above, ↓reduceIte] at member
  split at member
  · simp only [List.mem_cons, List.not_mem_nil, or_false] at member
    obtain rfl | rfl := member <;> rw [UInt8.toNat_ofNat'] <;> omega
  split at member
  · simp only [List.mem_cons, List.not_mem_nil, or_false] at member
    obtain rfl | rfl | rfl := member <;> rw [UInt8.toNat_ofNat'] <;> omega
  · simp only [List.mem_cons, List.not_mem_nil, or_false] at member
    obtain rfl | rfl | rfl | rfl := member <;> rw [UInt8.toNat_ofNat'] <;> omega

/-- A byte that is a character by itself stands for no other one. -/
theorem eq_of_mem_encodeChar {b : UInt8} {c : Char} (plain : b.toNat < 0x80)
    (member : b ∈ String.utf8EncodeChar c) : Char.ofNat b.toNat = c := by
  by_cases short : c.toNat < 0x80
  · rw [encodeChar_plain short, List.mem_singleton] at member
    rw [member, UInt8.toNat_ofNat', Nat.mod_eq_of_lt (by omega), Char.ofNat_toNat]
  · have high := high_of_mem_encodeChar (by omega) member
    omega

theorem mem_of_mem_encode {b : UInt8} {s : List Char} (plain : b.toNat < 0x80) (member : b ∈ encode s) :
    Char.ofNat b.toNat ∈ s := by
  obtain ⟨c, inside, byte⟩ := List.mem_flatMap.1 member
  rw [eq_of_mem_encodeChar plain byte]
  exact inside

theorem pieces_encode_append (s : List Char) (rest : List UInt8) :
    pieces (encode s ++ rest) = s.map some ++ pieces rest := by
  induction s with
  | nil => rfl
  | cons c s ih => rw [encode_cons, List.append_assoc, pieces_encodeChar, ih, List.map_cons,
      List.cons_append]

theorem pieces_encode (s : List Char) : pieces (encode s) = s.map some := by
  have all := pieces_encode_append s []
  rwa [List.append_nil, show pieces [] = [] by rw [pieces], List.append_nil] at all

/-- The bytes of a text are read as that text. -/
@[simp] theorem decode?_encode (s : List Char) : decode? (encode s) = some s := by
  rw [decode?, pieces_encode]
  induction s with
  | nil => rfl
  | cons c s ih => simp [List.mapM_cons, ih]

@[simp] theorem decodeLossy_encode (s : List Char) : decodeLossy (encode s) = s := by
  rw [decodeLossy, pieces_encode, List.map_map]
  exact List.map_id' s

theorem encode_injective : Function.Injective encode := by
  intro s t same
  have read : decode? (encode s) = decode? (encode t) := by rw [same]
  rwa [decode?_encode, decode?_encode, Option.some.injEq] at read

/-- A text whose bytes come first is itself first. -/
theorem prefix_of_encode {s t : List Char} (front : encode s <+: encode t) : s <+: t := by
  obtain ⟨rest, whole⟩ := front
  have read : s.map some ++ pieces rest = t.map some := by
    rw [← pieces_encode_append, whole, pieces_encode]
  exact (List.prefix_map_iff_of_injective fun _ _ => Option.some.inj).1 ⟨_, read⟩

/-! ## Bytes that are text -/

theorem toNat_ofNat {n : Nat} (valid : n < 0xD800 ∨ 0xDFFF < n ∧ n < 0x110000) :
    (Char.ofNat n).val.toNat = n := by
  have is_valid : n.isValidChar := valid
  rw [Char.ofNat, dif_pos is_valid]
  rfl

/-- What a lead byte says about itself and the second byte. -/
theorem leadBounds_cases {a low high : UInt8} {more : Nat} (bounds : leadBounds a = some (low, high, more)) :
    more = 0 ∧ 0xC2 ≤ a.toNat ∧ a.toNat < 0xE0 ∧ low.toNat = 0x80 ∧ high.toNat = 0xBF ∨
    more = 1 ∧ 0xE0 ≤ a.toNat ∧ a.toNat < 0xF0 ∧ (low.toNat = if a.toNat = 0xE0 then 0xA0 else 0x80) ∧
      (high.toNat = if a.toNat = 0xED then 0x9F else 0xBF) ∨
    more = 2 ∧ 0xF0 ≤ a.toNat ∧ a.toNat < 0xF5 ∧ (low.toNat = if a.toNat = 0xF0 then 0x90 else 0x80) ∧
      (high.toNat = if a.toNat = 0xF4 then 0x8F else 0xBF) := by
  have small : a.toNat < 256 := a.toNat_lt
  rw [← UInt8.ofNat_toNat (x := a), leadBounds_ofNat small] at bounds
  repeat' split at bounds
  all_goals cases bounds
  all_goals grind

theorem inside_iff {b low high : UInt8} :
    (decide (b < low) || decide (high < b)) = false ↔ low.toNat ≤ b.toNat ∧ b.toNat ≤ high.toNat := by
  simp only [Bool.or_eq_false_iff, decide_eq_false_iff_not, UInt8.lt_iff_toNat_lt]
  omega

theorem isTail_iff {b : UInt8} : isTail b = true ↔ 0x80 ≤ b.toNat ∧ b.toNat ≤ 0xBF := by
  simp only [isTail, Bool.and_eq_true, decide_eq_true_eq, UInt8.le_iff_toNat_le]
  rfl

theorem encodeChar_two {a b : UInt8} (lead : 0xC2 ≤ a.toNat ∧ a.toNat < 0xE0)
    (second : 0x80 ≤ b.toNat ∧ b.toNat ≤ 0xBF) :
    String.utf8EncodeChar (Char.ofNat (a.toNat % 32 * 64 + tailBits b)) = [a, b] := by
  rw [tailBits, String.utf8EncodeChar, toNat_ofNat (by omega)]
  rw [if_neg (by omega), if_pos (by omega)]
  simp only [List.cons.injEq, and_true, ← UInt8.toNat_inj, UInt8.toNat_ofNat']
  omega

theorem encodeChar_three {a b c : UInt8} (lead : 0xE0 ≤ a.toNat ∧ a.toNat < 0xF0)
    (second : 0x80 ≤ b.toNat ∧ b.toNat ≤ 0xBF) (third : 0x80 ≤ c.toNat ∧ c.toNat ≤ 0xBF)
    (least : a.toNat = 0xE0 → 0xA0 ≤ b.toNat) (greatest : a.toNat = 0xED → b.toNat ≤ 0x9F) :
    String.utf8EncodeChar (Char.ofNat (a.toNat % 16 * 4096 + tailBits b * 64 + tailBits c)) =
      [a, b, c] := by
  rw [tailBits, tailBits, String.utf8EncodeChar, toNat_ofNat (by omega)]
  rw [if_neg (by omega), if_neg (by omega), if_pos (by omega)]
  simp only [List.cons.injEq, and_true, ← UInt8.toNat_inj, UInt8.toNat_ofNat']
  omega

theorem encodeChar_four {a b c d : UInt8} (lead : 0xF0 ≤ a.toNat ∧ a.toNat < 0xF5)
    (second : 0x80 ≤ b.toNat ∧ b.toNat ≤ 0xBF) (third : 0x80 ≤ c.toNat ∧ c.toNat ≤ 0xBF)
    (fourth : 0x80 ≤ d.toNat ∧ d.toNat ≤ 0xBF)
    (least : a.toNat = 0xF0 → 0x90 ≤ b.toNat) (greatest : a.toNat = 0xF4 → b.toNat ≤ 0x8F) :
    String.utf8EncodeChar (Char.ofNat (a.toNat % 8 * 262144 + tailBits b * 4096 +
      tailBits c * 64 + tailBits d)) = [a, b, c, d] := by
  rw [tailBits, tailBits, tailBits, String.utf8EncodeChar, toNat_ofNat (by omega)]
  rw [if_neg (by omega), if_neg (by omega), if_neg (by omega)]
  simp only [List.cons.injEq, and_true, ← UInt8.toNat_inj, UInt8.toNat_ofNat']
  omega

/-- Reading takes bytes away from the front: those of a character, or a broken run. -/
theorem pieces_cons (a : UInt8) (bytes : List UInt8) :
    ∃ o front rest, a :: bytes = front ++ rest ∧ pieces (a :: bytes) = o :: pieces rest ∧
      ∀ c, o = some c → String.utf8EncodeChar c = front := by
  generalize given : a :: bytes = all
  fun_cases pieces all with
  | case1 => cases given
  | case2 a rest plain =>
      refine ⟨_, [a], rest, rfl, rfl, fun c read => ?_⟩
      have below : a.toNat < 0x80 := UInt8.lt_iff_toNat_lt.1 plain
      have value : (Char.ofNat a.toNat).toNat = a.toNat := toNat_ofNat (by omega)
      have small : (Char.ofNat a.toNat).toNat < 0x80 := by
        rw [value]
        exact below
      rw [← Option.some.inj read, encodeChar_plain small, value, UInt8.ofNat_toNat]
  | case6 a _ low high b rest inside bounds =>
      refine ⟨_, [a, b], rest, rfl, rfl, fun c read => ?_⟩
      rw [Bool.not_eq_true, inside_iff] at inside
      have lead := leadBounds_cases bounds
      rw [← Option.some.inj read, encodeChar_two (by omega) (by omega)]
  | case9 a _ low high b inside c rest third bounds =>
      refine ⟨_, [a, b, c], rest, rfl, rfl, fun c read => ?_⟩
      rw [Bool.not_eq_true, inside_iff] at inside
      rw [Bool.not_eq_true, Bool.not_eq_false', isTail_iff] at third
      have lead := leadBounds_cases bounds
      rw [← Option.some.inj read, encodeChar_three (by omega) (by grind) third (by grind) (by grind)]
  | case12 a _ low high more bounds b inside some_more c third other d rest fourth =>
      refine ⟨_, [a, b, c, d], rest, rfl, rfl, fun c read => ?_⟩
      rw [Bool.not_eq_true, inside_iff] at inside
      rw [Bool.not_eq_true, Bool.not_eq_false', isTail_iff] at third fourth
      have lead := leadBounds_cases bounds
      rw [← Option.some.inj read, encodeChar_four (by omega) (by grind) third fourth (by grind) (by grind)]
  -- the bytes that are left decide where a broken run ends
  | case3 a rest => exact ⟨none, [a], rest, rfl, rfl, nofun⟩
  | case4 a => exact ⟨none, [a], [], rfl, rfl, nofun⟩
  | case5 a _ _ _ _ _ b rest => exact ⟨none, [a], b :: rest, rfl, rfl, nofun⟩
  | case7 a _ _ _ _ _ b => exact ⟨none, [a, b], [], rfl, rfl, nofun⟩
  | case8 a _ _ _ _ _ b _ _ c rest => exact ⟨none, [a, b], c :: rest, rfl, rfl, nofun⟩
  | case10 a _ _ _ _ _ b _ _ c => exact ⟨none, [a, b, c], [], rfl, rfl, nofun⟩
  | case11 a _ _ _ _ _ b _ _ c _ _ d rest => exact ⟨none, [a, b, c], d :: rest, rfl, rfl, nofun⟩

/-- Bytes without broken runs are the bytes of their characters. -/
theorem encode_of_pieces {bytes : List UInt8} {s : List Char} (whole : pieces bytes = s.map some) :
    encode s = bytes := by
  induction s generalizing bytes with
  | nil =>
      cases bytes with
      | nil => rfl
      | cons a bytes =>
          obtain ⟨o, front, rest, -, read, -⟩ := pieces_cons a bytes
          rw [read] at whole
          cases whole
  | cons c s ih =>
      cases bytes with
      | nil =>
          rw [pieces] at whole
          cases whole
      | cons a bytes =>
          obtain ⟨o, front, rest, split, read, own⟩ := pieces_cons a bytes
          rw [read] at whole
          obtain ⟨first, others⟩ := List.cons.inj whole
          rw [split, encode_cons, own c first, ih others]

/-- A character that is read has its bytes among those read. -/
theorem subset_of_mem_pieces {bytes : List UInt8} {c : Char} (member : some c ∈ pieces bytes) :
    String.utf8EncodeChar c ⊆ bytes := by
  generalize all : pieces bytes = ps at member
  induction ps generalizing bytes with
  | nil => cases member
  | cons o ps ih =>
      cases bytes with
      | nil =>
          rw [pieces] at all
          cases all
      | cons a bytes =>
          obtain ⟨o', front, rest, split, read, own⟩ := pieces_cons a bytes
          rw [read] at all
          obtain ⟨first, others⟩ := List.cons.inj all
          rw [split]
          obtain here | later := List.mem_cons.1 member
          · rw [own c (first.trans here.symm)]
            exact List.subset_append_left front rest
          · exact List.Subset.trans (ih others later) (List.subset_append_right front rest)

/-- A character that is one byte is only read from that byte. -/
theorem mem_of_mem_decodeLossy {bytes : List UInt8} {c : Char} (plain : c.toNat < 0x80)
    (member : c ∈ decodeLossy bytes) : UInt8.ofNat c.toNat ∈ bytes := by
  obtain ⟨o, read, shown⟩ := List.mem_map.1 member
  cases o with
  | some c' =>
      obtain rfl : c' = c := shown
      have own := subset_of_mem_pieces read
      rw [encodeChar_plain plain] at own
      exact own List.mem_cons_self
  | none =>
      obtain rfl : '\uFFFD' = c := shown
      exact absurd plain (by decide)

theorem encode_of_decode? {bytes : List UInt8} {s : List Char} (read : decode? bytes = some s) :
    encode s = bytes := by
  refine encode_of_pieces ?_
  rw [decode?] at read
  generalize pieces bytes = ps at read
  induction ps generalizing s with
  | nil =>
      cases read
      rfl
  | cons o ps ih =>
      rw [List.mapM_cons] at read
      obtain ⟨c, first, later⟩ := Option.bind_eq_some_iff.1 read
      obtain ⟨rest, others, made⟩ := Option.bind_eq_some_iff.1 later
      obtain rfl : c :: rest = s := Option.some.inj made
      rw [ih others, List.map_cons, ← first]
      rfl

end Renumber.Text

namespace Renumber.Path

open Renumber.Text (bytesOf)

@[simp] theorem toString?_ofString (s : String) : (ofString s).toString? = some s := by
  simp [toString?, ofString, bytesOf]

@[simp] theorem display_ofString (s : String) : (ofString s).display = s := by
  simp [display, ofString, bytesOf, Text.lossyString]

/-- A path whose bytes are text. -/
def IsText (p : Path) : Prop :=
  ∃ s, p = ofString s

theorem ofString_display {p : Path} (text : p.IsText) : ofString p.display = p := by
  obtain ⟨s, rfl⟩ := text
  rw [display_ofString]

/-- A path that can be read as a string is text. -/
theorem isText_of_toString? {p : Path} {s : String} (read : p.toString? = some s) : p.IsText := by
  obtain ⟨chars, decoded, rfl⟩ := Option.map_eq_some_iff.1 read
  refine ⟨String.ofList chars, ?_⟩
  rw [ofString, Text.bytesOf, String.toList_ofList, Text.encode_of_decode? decoded]

theorem isSome_toString?_iff {p : Path} : p.toString?.isSome = true ↔ p.IsText := by
  constructor
  · intro read
    obtain ⟨s, read⟩ := Option.isSome_iff_exists.1 read
    exact isText_of_toString? read
  · rintro ⟨s, rfl⟩
    rw [toString?_ofString]
    rfl

instance (p : Path) : Decidable p.IsText :=
  decidable_of_iff (p.toString?.isSome = true) isSome_toString?_iff

end Renumber.Path
