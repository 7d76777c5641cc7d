import Renumber.Path.Key
import Renumber.Proofs.Path.Segments
import Renumber.Proofs.Text.Case
import Renumber.Proofs.Text.Utf8

/-!
# Keys and spellings

A path is brought to lower case as a whole, and whether a sigma is final depends on the text
around it. But a separator is read as itself whatever bytes are in front of it, and no word
goes on behind it. So lower case works on each segment by itself, and two spellings of one path
have one key.
-/

namespace Renumber.Text

/-! ## Reading up to a separator -/

theorem pieces_plain {c : UInt8} (plain : c < 0x80) (rest : List UInt8) :
    pieces (c :: rest) = some (Char.ofNat c.toNat) :: pieces rest := by
  rw [pieces.eq_def]
  exact if_pos plain

theorem le_low_of_leadBounds {a low high : UInt8} {more : Nat}
    (bounds : leadBounds a = some (low, high, more)) : 0x80 ≤ low := by
  rw [leadBounds] at bounds
  repeat
    split at bounds
    · cases bounds <;> decide
  cases bounds

/-- A character that is one byte is read as itself behind any bytes, and ends what was broken
before it. -/
theorem pieces_append_plain {c : UInt8} (plain : c < 0x80) (a b : List UInt8) :
    pieces (a ++ c :: b) = pieces a ++ some (Char.ofNat c.toNat) :: pieces b := by
  have short : ∀ {low high : UInt8}, 0x80 ≤ low → (decide (c < low) || decide (high < c)) = true := by
    intro low high least
    rw [decide_eq_true (UInt8.lt_of_lt_of_le plain least), Bool.true_or]
  have no_tail : isTail c = false := by
    rw [isTail, decide_eq_false (UInt8.not_le.2 plain), Bool.false_and]
  have alone := pieces_plain plain b
  fun_induction pieces a
  case case1 => exact alone
  case case2 plain' ih => rw [List.cons_append, pieces_plain plain', ih, List.cons_append]
  -- the bytes end where more of a character was expected
  case case4 lead low high more bounds =>
    have broken : (decide (c < low) || decide (high < c)) = true :=
      short (le_low_of_leadBounds bounds)
    rw [List.cons_append, pieces.eq_def]
    simp only [lead, bounds, broken, alone, ↓reduceIte, List.nil_append, List.cons_append]
  case case7 =>
    simp only [List.cons_append, List.nil_append]
    rw [pieces.eq_def]
    simp only [*, ↓reduceIte, Bool.false_eq_true, Bool.not_false]
  case case10 =>
    simp only [List.cons_append, List.nil_append]
    rw [pieces.eq_def]
    simp only [*, ↓reduceIte, Bool.false_eq_true, Bool.not_false]
  -- they end behind it
  all_goals
    simp only [List.cons_append] at *
    rw [pieces.eq_def]
    simp only [*, ↓reduceIte, Bool.false_eq_true]

theorem decodeLossy_append_slash (a b : List UInt8) :
    decodeLossy (a ++ Path.slash :: b) = decodeLossy a ++ '/' :: decodeLossy b := by
  rw [decodeLossy, pieces_append_plain (by decide), List.map_append, List.map_cons]
  rfl

theorem decodeLossy_ne_nil {bytes : List UInt8} (some_byte : bytes ≠ []) : decodeLossy bytes ≠ [] := by
  rw [decodeLossy, ne_eq, List.map_eq_nil_iff]
  fun_cases pieces bytes <;> simp_all

/-! ## Lower case up to a separator -/

theorem lower_append_slash (front back : List Char) :
    lower (front ++ '/' :: back) = lower front ++ '/' :: lower back :=
  lower_append_break Case.isBreak_slash front back

theorem lower_ne_nil {s : List Char} (some_char : s ≠ []) : lower s ≠ [] := by
  cases s with
  | nil => exact absurd rfl some_char
  | cons c s =>
      rw [lower, Case.lowerFrom]
      split
      · exact List.cons_ne_nil _ _
      · split <;> exact List.cons_ne_nil _ _

end Renumber.Text

namespace Renumber.Path

/-! ## Keys -/

/-- The lower case of some bytes. -/
def lowerBytes (bytes : List UInt8) : List UInt8 :=
  Text.encode (Text.lower (Text.decodeLossy bytes))

theorem lowerBytes_append_slash (a b : List UInt8) :
    lowerBytes (a ++ slash :: b) = lowerBytes a ++ slash :: lowerBytes b := by
  rw [lowerBytes, Text.decodeLossy_append_slash, Text.lower_append_slash, Text.encode_append,
    Text.encode_cons]
  rfl

theorem lowerBytes_ne_nil {bytes : List UInt8} (some_byte : bytes ≠ []) : lowerBytes bytes ≠ [] := by
  obtain ⟨c, s, text⟩ :=
    List.exists_cons_of_ne_nil (Text.lower_ne_nil (Text.decodeLossy_ne_nil some_byte))
  rw [lowerBytes, text, Text.encode_cons]
  exact List.append_ne_nil_of_left_ne_nil (Text.encodeChar_ne_nil c) _

theorem segments_append_slash (a b : List UInt8) :
    segments (a ++ slash :: b) = segments a ++ segments b := by
  induction a with
  | nil => exact segments_slash b
  | cons c a ih =>
      by_cases separates : c = slash
      · rw [separates, List.cons_append, segments_slash, segments_slash, ih, List.cons_append]
      · obtain ⟨piece, more, pieces⟩ := List.exists_cons_of_ne_nil (segments_ne_nil a)
        have all : segments (a ++ slash :: b) = piece :: (more ++ segments b) := by
          rw [ih, pieces, List.cons_append]
        rw [segments] at all pieces
        rw [List.cons_append, segments, segments, Text.splitOn, Text.splitOn, if_neg separates,
          if_neg separates, all, pieces, List.cons_append]

/-- What is made of each segment by itself, and of an empty one or a single dot not at all, is made of
the real segments. -/
theorem eq_flatMap_reals {α : Type} (make : List UInt8 → List α)
    (apart : ∀ a b, make (a ++ slash :: b) = make a ++ make b) (empty : make [] = []) (stays : make [dot] = [])
    (p : Path) : make p.bytes = p.reals.flatMap make := by
  have each : ∀ segs : List (List UInt8), make (joinSegments segs) = segs.flatMap make := by
    intro segs
    induction segs with
    | nil => exact empty
    | cons s segs ih =>
        cases segs with
        | nil => exact (List.append_nil _).symm
        | cons next segs =>
            have joined : joinSegments (s :: next :: segs) =
                s ++ slash :: joinSegments (next :: segs) := rfl
            rw [joined, apart]
            exact congrArg (make s ++ ·) ih
  have unreal : ∀ segs : List (List UInt8), (segs.filter isReal).flatMap make = segs.flatMap make := by
    intro segs
    induction segs with
    | nil => rfl
    | cons s segs ih =>
        rw [List.flatMap_cons, ← ih]
        cases real : isReal s with
        | true => rw [List.filter_cons_of_pos real, List.flatMap_cons]
        | false =>
            have nothing : make s = [] := by
              by_contra something
              have not_empty : s ≠ [] := fun none => something (by rw [none, empty])
              have not_dot : s ≠ [dot] := fun single => something (by rw [single, stays])
              rw [isReal_iff.2 ⟨not_empty, not_dot⟩] at real
              cases real
            rw [List.filter_cons_of_neg (by rw [real]; exact Bool.false_ne_true), nothing, List.nil_append]
  have all := each (segments p.bytes)
  rw [joinSegments_segments, ← unreal] at all
  exact all

/-- The real segments of the lower case are those of each real segment. -/
theorem reals_lowerBytes (p : Path) :
    reals ⟨lowerBytes p.bytes⟩ = p.reals.flatMap fun s => reals ⟨lowerBytes s⟩ := by
  have apart : ∀ a b, reals ⟨lowerBytes (a ++ slash :: b)⟩ = reals ⟨lowerBytes a⟩ ++ reals ⟨lowerBytes b⟩ := by
    intro a b
    rw [lowerBytes_append_slash, reals, segments_append_slash, List.filter_append]
    rfl
  exact eq_flatMap_reals (fun s => reals ⟨lowerBytes s⟩) apart rfl (by decide) p

theorem lead_append_slash {a : List UInt8} (b : List UInt8) (some_byte : a ≠ []) :
    lead ⟨a ++ slash :: b⟩ = lead ⟨a⟩ := by
  cases a with
  | nil => exact absurd rfl some_byte
  | cons c a =>
      cases a with
      | nil => simp [lead]
      | cons d a => rfl

/-- The lead of the lower case depends on the lead and the real segments. -/
theorem lead_lowerBytes (p : Path) : lead ⟨lowerBytes p.bytes⟩ =
    (p.lead <|> p.reals.head?.bind fun s => lead ⟨lowerBytes s⟩) := by
  have rooted : ∀ bytes, lead ⟨slash :: bytes⟩ = some .root := by
    intro bytes
    cases bytes <;> rfl
  obtain ⟨none_lead, -, relative⟩ | ⟨root, bytes, -⟩ | ⟨here, bytes, -, ends⟩ := p.lead_cases
  · obtain ⟨bytes⟩ := p
    obtain ⟨s, segs, all⟩ := List.exists_cons_of_ne_nil (segments_ne_nil bytes)
    have joined := joinSegments_segments bytes
    rw [none_lead, reals, all]
    rw [all] at joined
    cases real : isReal s with
    | true =>
        have first : lead ⟨lowerBytes bytes⟩ = lead ⟨lowerBytes s⟩ := by
          rw [← joined]
          cases segs with
          | nil => rfl
          | cons next segs =>
              have behind : joinSegments (s :: next :: segs) = s ++ slash :: joinSegments (next :: segs) :=
                rfl
              rw [behind, lowerBytes_append_slash,
                lead_append_slash _ (lowerBytes_ne_nil (isReal_iff.1 real).1)]
        rw [List.filter_cons_of_pos real]
        exact first
    | false =>
        -- a path whose first segment does not count has a lead, or is empty
        have unreal : s = [] ∨ s = [dot] := by
          by_contra neither
          rw [isReal_iff.2 (not_or.1 neither)] at real
          cases real
        obtain rfl | rfl := unreal
        · cases segs with
          | nil =>
              rw [← joined]
              rfl
          | cons next segs =>
              rw [← joined] at relative
              exact absurd rfl relative
        · rw [← joined] at none_lead
          cases segs <;> cases none_lead
  · have first : p.bytes = [] ++ slash :: p.bytes.tail := bytes
    rw [root, first, lowerBytes_append_slash]
    exact rooted _
  · rw [here, bytes]
    obtain none_more | more := ends
    · rw [none_more]
      rfl
    · obtain ⟨rest, behind⟩ := List.head?_eq_some_iff.1 more
      have split : dot :: p.bytes.tail = [dot] ++ slash :: rest := by rw [behind]; rfl
      rw [split, lowerBytes_append_slash, lead_append_slash _ (lowerBytes_ne_nil (List.cons_ne_nil _ _))]
      rfl

/-- Two spellings of one path have one key. -/
theorem key_congr {p q : Path} (same : p.components = q.components) (ci : Bool) : p.key ci = q.key ci := by
  cases ci with
  | false => exact same
  | true =>
      obtain ⟨lead, reals⟩ := components_eq_iff.1 same
      refine components_eq_iff.2 ⟨?_, ?_⟩
      · exact (lead_lowerBytes p).trans (by rw [lead, reals, ← lead_lowerBytes]; rfl)
      · exact (reals_lowerBytes p).trans (by rw [reals, ← reals_lowerBytes]; rfl)

end Renumber.Path
