import Renumber.Pattern.Search
import Renumber.Proofs.Pattern.Counter

/-!
# What the search finds

A text fits tokens when it can be cut into stretches, one for each token. The plain search
finds a match exactly of the texts that fit, and the search that solves every place once
answers what the plain search answers.
-/

namespace Renumber.Pattern

variable {tokens rest : List Token} {s : List Char} {found : Option Nat}

/-! ## Texts that fit -/

/-- The text is cut into stretches, each of which fits its token. -/
inductive Fits : List Token → List Char → Prop where
  | nil : Fits [] []
  | literal (c : Char) {rest : List Token} {s : List Char} (fits : Fits rest s) :
      Fits (.literal c :: rest) (c :: s)
  | anyOne (c : Char) {rest : List Token} {s : List Char} (fits : Fits rest s) :
      Fits (.anyOne :: rest) (c :: s)
  | anyRest (front : List Char) {rest : List Token} {s : List Char} (fits : Fits rest s) :
      Fits (.anyRest :: rest) (front ++ s)
  | counter {style : CounterStyle} {value used : Nat} {rest : List Token} {s : List Char}
      (read : (value, used) ∈ style.readings s) (fits : Fits rest (s.drop used)) :
      Fits (.counter style :: rest) s

/-- A written counter fits a counter, in front of text that it takes nothing from. -/
theorem fits_written {style : CounterStyle} {n : Nat} {lead digits trail : List Char}
    (written : style.Written n lead digits trail) (small : n ≤ maxCounter)
    (apart : style.leftJustify = true → s.head? ≠ some ' ') (fits : Fits rest s) :
    Fits (.counter style :: rest) (lead ++ digits ++ trail ++ s) := by
  obtain ⟨longer, shorter, split, -⟩ := style.readings_written written small apart
  have read : (n, (lead ++ digits ++ trail).length) ∈ style.readings (lead ++ digits ++ trail ++ s) := by
    rw [split]
    exact List.mem_append_right _ List.mem_cons_self
  apply Fits.counter read
  rwa [List.drop_left]

theorem mem_suffixes_iff {s t : List Char} : t ∈ suffixes s ↔ t <:+ s := by
  induction s with
  | nil => rw [suffixes, List.mem_singleton, List.suffix_nil]
  | cons c s ih => rw [suffixes, List.mem_cons, ih, List.suffix_cons_iff]

/-- Behind a stretch of the text the ends of the text go on with those of what is left. -/
theorem suffixes_append (front s : List Char) : ∃ firsts more,
    suffixes (front ++ s) = firsts ++ s :: more ∧ ∀ t ∈ firsts, ∃ part, part <:+ front ∧ t = part ++ s := by
  induction front with
  | nil =>
      refine ⟨[], (suffixes s).tail, ?_, fun t never => absurd never List.not_mem_nil⟩
      cases s <;> rfl
  | cons c front ih =>
      obtain ⟨firsts, more, split, each⟩ := ih
      refine ⟨(c :: front ++ s) :: firsts, more, ?_, ?_⟩
      · rw [List.cons_append, suffixes, split]
        rfl
      · intro t member
        cases member with
        | head => exact ⟨c :: front, List.suffix_rfl, rfl⟩
        | tail _ later =>
            obtain ⟨part, inside, rfl⟩ := each t later
            exact ⟨part, inside.trans (List.suffix_cons c front), rfl⟩

theorem search_literal (c a : Char) (rest : List Token) (s : List Char) :
    search (.literal c :: rest) (a :: s) = if a = c then search rest s else none :=
  rfl

theorem search_literal_self (c : Char) (rest : List Token) (s : List Char) :
    search (.literal c :: rest) (c :: s) = search rest s :=
  if_pos rfl

/-- A match is a cut that fits. -/
theorem fits_of_search (matched : search tokens s = some found) : Fits tokens s := by
  induction tokens generalizing s found with
  | nil =>
      cases s with
      | nil => exact .nil
      | cons c s => cases matched
  | cons t rest ih =>
      cases t with
      | literal c =>
          cases s with
          | nil => cases matched
          | cons a s =>
              rw [search_literal] at matched
              split at matched
              next same =>
                subst same
                exact .literal a (ih matched)
              next => cases matched
      | anyOne =>
          cases s with
          | nil => cases matched
          | cons a s => exact .anyOne a (ih matched)
      | anyRest =>
          obtain ⟨t, ending, behind⟩ := List.exists_of_findSome?_eq_some matched
          obtain ⟨front, rfl⟩ := mem_suffixes_iff.1 ending
          exact .anyRest front (ih behind)
      | counter style =>
          obtain ⟨⟨value, used⟩, read, matched⟩ := List.exists_of_findSome?_eq_some matched
          obtain ⟨behind, matched, -⟩ := Option.map_eq_some_iff.1 matched
          exact .counter read (ih matched)

/-- A text that fits is matched. -/
theorem Fits.isSome_search (fits : Fits tokens s) : (search tokens s).isSome = true := by
  induction fits with
  | nil => rfl
  | literal c fits ih =>
      rw [search_literal_self]
      exact ih
  | anyOne c fits ih => exact ih
  | anyRest front fits ih =>
      rw [search, List.isSome_findSome?, List.any_eq_true]
      exact ⟨_, mem_suffixes_iff.2 (List.suffix_append front _), ih⟩
  | counter read fits ih =>
      rw [search, List.isSome_findSome?, List.any_eq_true]
      refine ⟨_, read, ?_⟩
      rw [Option.isSome_map]
      exact ih

theorem search_eq_none (unfit : ¬ Fits tokens s) : search tokens s = none := by
  cases matched : search tokens s with
  | none => rfl
  | some found => exact absurd (fits_of_search matched) unfit

/-- Without a counter among the tokens a match finds none. -/
theorem search_plain (plain : ∀ t ∈ tokens, t.isCounter = false)
    (matched : search tokens s = some found) : found = none := by
  induction tokens generalizing s with
  | nil =>
      cases s with
      | nil => exact (Option.some.inj matched).symm
      | cons c s => cases matched
  | cons t rest ih =>
      obtain ⟨own, later⟩ := List.forall_mem_cons.1 plain
      cases t with
      | literal c =>
          cases s with
          | nil => cases matched
          | cons a s =>
              rw [search_literal] at matched
              split at matched
              next => exact ih later matched
              next => cases matched
      | anyOne =>
          cases s with
          | nil => cases matched
          | cons a s => exact ih later matched
      | anyRest =>
          obtain ⟨t, -, behind⟩ := List.exists_of_findSome?_eq_some matched
          exact ih later behind
      | counter style => cases own

/-- With a counter among the tokens a match finds one. -/
theorem search_numbered {t : Token} (member : t ∈ tokens) (numbers : t.isCounter = true)
    (matched : search tokens s = some found) : found.isSome = true := by
  induction tokens generalizing s with
  | nil => cases member
  | cons first rest ih =>
      have later : first.isCounter = false → t ∈ rest := by
        intro plain
        obtain rfl | later := List.mem_cons.1 member
        · rw [numbers] at plain
          cases plain
        · exact later
      cases first with
      | literal c =>
          cases s with
          | nil => cases matched
          | cons a s =>
              rw [search_literal] at matched
              split at matched
              next => exact ih (later rfl) matched
              next => cases matched
      | anyOne =>
          cases s with
          | nil => cases matched
          | cons a s => exact ih (later rfl) matched
      | anyRest =>
          obtain ⟨t, -, behind⟩ := List.exists_of_findSome?_eq_some matched
          exact ih (later rfl) behind
      | counter style =>
          obtain ⟨reading, -, matched⟩ := List.exists_of_findSome?_eq_some matched
          obtain ⟨behind, -, rfl⟩ := Option.map_eq_some_iff.1 matched
          rfl

theorem Fits.search_eq (fits : Fits tokens s) (plain : ∀ t ∈ tokens, t.isCounter = false) :
    search tokens s = some none := by
  obtain ⟨found, matched⟩ := Option.isSome_iff_exists.1 fits.isSome_search
  rw [matched, search_plain plain matched]

/-! ## Characters that the tokens spell -/

/-- The token stands for a character of the class. -/
def Token.spells (p : Char → Bool) : Token → Bool
  | literal c => p c
  | _ => false

/-- A text that fits holds every character that the tokens spell. -/
theorem Fits.countP_le (p : Char → Bool) (fits : Fits tokens s) :
    tokens.countP (Token.spells p) ≤ s.countP p := by
  induction fits with
  | nil => exact Nat.le_refl 0
  | literal c fits ih =>
      rw [List.countP_cons, List.countP_cons]
      exact Nat.add_le_add_right ih _
  | anyOne c fits ih =>
      rw [List.countP_cons, List.countP_cons]
      exact Nat.le_trans ih (Nat.le_add_right _ _)
  | anyRest front fits ih =>
      rw [List.countP_cons, List.countP_append]
      exact Nat.le_trans ih (Nat.le_add_left _ _)
  | counter read fits ih =>
      rw [List.countP_cons]
      exact Nat.le_trans ih (List.drop_sublist _ _).countP_le

/-- Where both a text and a longer one around it fit, the text fits with what follows it. -/
theorem Fits.of_around {u w z : List Char} (plain : ∀ t ∈ tokens, t.isCounter = false)
    (fits : Fits tokens u) (around : Fits tokens (w ++ u ++ z)) : Fits tokens (u ++ z) := by
  induction fits generalizing w with
  | nil =>
      cases w with
      | nil => exact around
      | cons a w => cases around
  | literal c fits ih =>
      cases w with
      | nil => exact around
      | cons a w =>
          rw [List.cons_append, List.cons_append, List.append_cons] at around
          cases around with
          | literal _ around => exact .literal c (ih (List.forall_mem_cons.1 plain).2 around)
  | anyOne c fits ih =>
      cases w with
      | nil => exact around
      | cons a w =>
          rw [List.cons_append, List.cons_append, List.append_cons] at around
          cases around with
          | anyOne _ around => exact .anyOne c (ih (List.forall_mem_cons.1 plain).2 around)
  | @anyRest front rest u fits ih =>
      generalize whole : w ++ (front ++ u) ++ z = text at around
      cases around with
      | @anyRest ahead rest s around =>
          have ends : w ++ front ++ (u ++ z) = ahead ++ s := by
            simpa using whole
          rw [List.append_assoc]
          -- What the wildcard leaves starts inside the text that fits, or in front of it.
          obtain ⟨part, -, inside⟩ | ⟨part, -, rfl⟩ := List.append_eq_append_iff.1 ends
          · rw [inside, ← List.append_assoc]
            exact .anyRest (front ++ part) around
          · rw [← List.append_assoc] at around
            exact .anyRest front (ih (List.forall_mem_cons.1 plain).2 around)
  | counter read fits ih => cases (List.forall_mem_cons.1 plain).1

end Renumber.Pattern
