import Renumber.Text.Case

/-!
# Lower case and breaks

Only the form of a sigma depends on what stands around it, and only as far as its word goes. At
a character that has no case and is not passed over the word ends, so that lower case works on
either side of it by itself. And how many characters of a kind come out never depends on the
text around them, as long as a sigma counts as one in either form.
-/

namespace Renumber.Text

namespace Case

variable {c : Char} {s : List Char}

/-- A character that stands for itself and ends a word. -/
structure IsBreak (c : Char) : Prop where
  counts : isIgnorable c = false
  caseless : isCased c = false
  itself : lowerChar c = c

set_option maxRecDepth 4000 in
instance (c : Char) : Decidable (IsBreak c) :=
  decidable_of_iff (isIgnorable c = false ∧ isCased c = false ∧ lowerChar c = c)
    ⟨fun ⟨counts, caseless, itself⟩ => ⟨counts, caseless, itself⟩,
      fun ⟨counts, caseless, itself⟩ => ⟨counts, caseless, itself⟩⟩

set_option maxRecDepth 4000 in
theorem isBreak_slash : IsBreak '/' := by decide

set_option maxRecDepth 4000 in
theorem IsBreak.ne_sigma (ends : IsBreak c) : c ≠ 'Σ' ∧ c ≠ 'İ' := by
  constructor
  · rintro rfl
    exact absurd ends.caseless (by decide)
  · rintro rfl
    exact absurd ends.caseless (by decide)

/-- What stands behind a break has no part in a word before it. -/
theorem IsBreak.nextIsCased (ends : IsBreak c) (front back : List Char) :
    nextIsCased (front ++ c :: back) = nextIsCased front := by
  induction front with
  | nil =>
      simp only [Case.nextIsCased, List.nil_append, List.dropWhile_cons, ends.counts]
      exact ends.caseless
  | cons a front ih =>
      simp only [Case.nextIsCased, List.cons_append, List.dropWhile_cons] at ih ⊢
      cases isIgnorable a with
      | true => exact ih
      | false => rfl

theorem IsBreak.lowerFrom_before (ends : IsBreak c) (before far s : List Char) :
    lowerFrom (before ++ c :: far) s = lowerFrom before s := by
  induction s generalizing before with
  | nil => rfl
  | cons a s ih =>
      have next := ih (a :: before)
      rw [List.cons_append] at next
      simp only [lowerFrom, next, ends.nextIsCased]

theorem IsBreak.lowerFrom_append (ends : IsBreak c) (before front back : List Char) :
    lowerFrom before (front ++ c :: back) = lowerFrom before front ++ c :: lowerFrom [] back := by
  induction front generalizing before with
  | nil =>
      have next : lowerFrom (c :: before) back = lowerFrom [] back := ends.lowerFrom_before [] before back
      obtain ⟨no_sigma, no_dotted⟩ := ends.ne_sigma
      rw [List.nil_append, lowerFrom, lowerFrom, if_neg no_sigma, if_neg no_dotted, next, ends.itself]
      rfl
  | cons a front ih =>
      rw [List.cons_append, lowerFrom, lowerFrom, ih, ends.nextIsCased]
      split
      · rfl
      · split <;> rfl

/-- Each character adds what it adds alone to the characters of a kind, if the kind does not tell the
two forms of a sigma apart. -/
theorem countP_lowerFrom {kind : Char → Bool} (either : kind 'σ' = kind 'ς') (before s : List Char) :
    (lowerFrom before s).countP kind = (s.flatMap fun c => lowerFrom [] [c]).countP kind := by
  have sigma : ∀ final : Bool, kind (if final then 'ς' else 'σ') = kind 'σ' := by
    intro final
    cases final
    · rfl
    · exact either.symm
  induction s generalizing before with
  | nil => rfl
  | cons c s ih =>
      have rest := ih (c :: before)
      rw [List.flatMap_cons, List.countP_append, lowerFrom, lowerFrom, lowerFrom]
      split
      · simp only [List.countP_cons, List.countP_nil, sigma, rest]
        omega
      · split
        · simp only [List.countP_cons, List.countP_nil, rest]
          omega
        · simp only [List.countP_cons, List.countP_nil, rest]
          omega

end Case

/-- Lower case works on either side of a break by itself. -/
theorem lower_append_break {c : Char} (ends : Case.IsBreak c) (front back : List Char) :
    lower (front ++ c :: back) = lower front ++ c :: lower back :=
  ends.lowerFrom_append [] front back

/-- Breaks are left as they are, with the lower case of what stands around them. -/
theorem lower_append_breaks {mid : List Char} (some_break : mid ≠ []) (ends : ∀ c ∈ mid, Case.IsBreak c)
    (front back : List Char) : lower (front ++ mid ++ back) = lower front ++ mid ++ lower back := by
  induction mid generalizing front with
  | nil => exact absurd rfl some_break
  | cons c mid ih =>
      obtain ⟨first, others⟩ := List.forall_mem_cons.1 ends
      have behind : lower (mid ++ back) = mid ++ lower back := by
        by_cases last : mid = []
        · rw [last]
          rfl
        · exact ih last others []
      calc lower (front ++ c :: mid ++ back)
          = lower (front ++ c :: (mid ++ back)) := by rw [List.append_assoc, List.cons_append]
        _ = lower front ++ c :: lower (mid ++ back) := lower_append_break first front (mid ++ back)
        _ = lower front ++ c :: mid ++ lower back := by
            rw [behind, List.append_assoc, List.cons_append]

theorem countP_lower_append {kind : Char → Bool} (either : kind 'σ' = kind 'ς') (front back : List Char) :
    (lower (front ++ back)).countP kind = (lower front).countP kind + (lower back).countP kind := by
  simp only [lower, Case.countP_lowerFrom either, List.flatMap_append, List.countP_append]

end Renumber.Text
