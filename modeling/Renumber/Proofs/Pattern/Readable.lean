import Renumber.Proofs.Pattern.Fixed

/-!
# Formatted texts that can be read

A part can read what it formatted, unless its counter is padded behind and more blanks follow.
Such a counter takes all of them when it is read, so what stands behind it has to fit without the
blanks that it begins with. Without wildcards it never does.
-/

namespace Renumber.Pattern

open CounterStyle (withoutBlanks withoutBlanks_eq head?_withoutBlanks exists_blanks)

variable {style : CounterStyle} {tokens : List Placed} {rest : List Token} {pattern source s : List Char}
  {taken : Bool} {n : Nat}

/-! ## What stands behind the counter -/

/-- The tokens behind the first counter. -/
def Part.tokensBehind (p : Part) : List Token :=
  ((p.tokens.map (·.token)).dropWhile (!·.isCounter)).tail

/-- A counter can be read where the tokens behind it fit what it leaves of the text. -/
theorem fits_counter (small : n ≤ maxCounter)
    (fits : Fits rest (if style.leftJustify then withoutBlanks s else s)) :
    Fits (.counter style :: rest) (style.render n ++ s) := by
  obtain ⟨lead, digits, trail, shape, written⟩ := style.exists_written n
  rw [shape]
  cases justified : style.leftJustify with
  | false =>
      rw [justified] at fits
      apply fits_written written small _ fits
      intro never
      rw [justified] at never
      cases never
  | true =>
      rw [justified] at fits
      obtain ⟨blanks, parted, -, each⟩ := exists_blanks s
      have more := written.append_blanks justified each
      rw [parted, ← List.append_assoc, List.append_assoc _ trail]
      exact fits_written more small (fun _ => head?_withoutBlanks s) fits

/-! ## Tokens without wildcards -/

/-- Tokens that are neither counters nor wildcards fit nothing but what they write. -/
theorem Fixed.eq_of_fits (fixed : Fixed tokens) (plain : Plain tokens)
    (fits : Fits (tokens.map (·.token) ++ rest) s) (source : List Char) :
    ∃ left, s = (Part.formatTokens n tokens source).text ++ left ∧ Fits rest left := by
  induction tokens generalizing s source with
  | nil => exact ⟨s, rfl, fits⟩
  | cons t tokens ih =>
      obtain ⟨no_wildcard, later_fixed⟩ := List.forall_mem_cons.1 fixed
      obtain ⟨no_counter, later_plain⟩ := List.forall_mem_cons.1 plain
      obtain ⟨offset, span, token⟩ := t
      cases token with
      | literal c =>
          cases fits with
          | literal _ fits =>
              obtain ⟨left, split, behind⟩ := ih later_fixed later_plain fits source
              exact ⟨left, congrArg (c :: ·) split, behind⟩
      | counter style => cases no_counter
      | anyRest => cases no_wildcard
      | anyOne => cases no_wildcard

/-! ## Parts -/

variable {p : Part} {front back : List Placed} {here : Placed}

/-- What a part with a counter finds in a text is a counter. -/
theorem isSome_counterOf?_iff (numbers : Numbers style p.tokens) :
    (p.counterOf? s).isSome = true ↔ Fits (p.tokens.map (·.token)) s := by
  have counter : ∃ t ∈ p.tokens.map (·.token), t.isCounter = true := by
    obtain ⟨front, here, back, all, kind, -, -⟩ := numbers
    refine ⟨here.token, List.mem_map_of_mem ?_, ?_⟩
    · rw [all]
      exact List.mem_append_right _ List.mem_cons_self
    · rw [kind]
      rfl
  obtain ⟨t, member, own⟩ := counter
  rw [Part.counterOf?, Part.hasCounter, numbers.any_isCounter, if_pos rfl, Part.match?_eq]
  constructor
  · intro some_counter
    obtain ⟨value, read⟩ := Option.isSome_iff_exists.1 some_counter
    exact fits_of_search (Option.join_eq_some_iff.1 read)
  · intro fits
    obtain ⟨found, matched⟩ := Option.isSome_iff_exists.1 fits.isSome_search
    rw [matched]
    exact search_numbered member own matched

theorem tokensBehind_eq (parted : p.tokens = front ++ here :: back) (kind : here.token = .counter style)
    (plain : Plain front) : p.tokensBehind = back.map (·.token) := by
  have passed : ∀ t ∈ front.map (·.token), (!t.isCounter) = true := by
    intro t member
    rw [plain.map_token t member]
    rfl
  rw [Part.tokensBehind, parted, List.map_append, List.map_cons, List.dropWhile_append_of_pos passed, kind]
  rfl

theorem isSome_matchTokens_iff {tokens : List Token} :
    (matchTokens tokens s).isSome = true ↔ Fits tokens s := by
  rw [matchTokens_eq_search]
  constructor
  · intro some_match
    obtain ⟨found, matched⟩ := Option.isSome_iff_exists.1 some_match
    exact fits_of_search matched
  · exact Fits.isSome_search

/-- The tokens behind the counter fit what they wrote. -/
theorem Numbers.fits_behind (numbers : Numbers style p.tokens) (clean : (p.format source n).warnings = []) :
    Fits p.tokensBehind (Part.behindCounter n p.tokens source) := by
  obtain ⟨front, here, back, parted, kind, plain, plain_back⟩ := numbers
  rw [Part.format, parted] at clean
  rw [tokensBehind_eq parted kind plain, parted, Part.behindCounter_append plain kind]
  exact Part.fits_text plain_back (Part.clean_around kind clean).2

/-- Where a part formatted without a shortfall, it finds a counter again if that is not padded behind, or if
the tokens behind it fit what follows without the blanks that it begins with. -/
theorem Numbers.isSome_counterOf? (numbers : Numbers style p.tokens) (small : n ≤ maxCounter)
    (clean : (p.format source n).warnings = [])
    (apart : style.leftJustify = true →
      Fits p.tokensBehind (withoutBlanks (Part.behindCounter n p.tokens source))) :
    (p.counterOf? (p.format source n).text).isSome = true := by
  have own := numbers.fits_behind clean
  rw [isSome_counterOf?_iff numbers]
  obtain ⟨front, here, back, parted, kind, plain, -⟩ := numbers
  have fits : Fits (.counter style :: p.tokensBehind)
      (style.render n ++ Part.behindCounter n p.tokens source) := by
    refine fits_counter small ?_
    split
    · next justified => exact apart justified
    · exact own
  rw [tokensBehind_eq parted kind plain] at fits
  rw [Part.format, parted] at clean ⊢
  rw [parted] at fits
  rw [Part.text_eq_around plain kind, List.map_append, List.map_cons, kind]
  exact Part.fits_formatTokens plain (Part.clean_around kind clean).1 fits

/-- A counter that is not padded behind is found, and so is one in front of another character than a blank. -/
theorem Numbers.isSome_of_apart (numbers : Numbers style p.tokens) (small : n ≤ maxCounter)
    (clean : (p.format source n).warnings = [])
    (apart : style.leftJustify = false ∨ (Part.behindCounter n p.tokens source).head? ≠ some ' ') :
    (p.counterOf? (p.format source n).text).isSome = true := by
  apply numbers.isSome_counterOf? small clean
  intro justified
  obtain never | no_blank := apart
  · rw [justified] at never
    cases never
  · rw [withoutBlanks_eq no_blank]
    exact numbers.fits_behind clean

/-- Without wildcards a counter that is padded behind is not found in front of a blank. -/
theorem Numbers.head?_of_fixed (numbers : Numbers style p.tokens) (fixed : Fixed p.tokens)
    (justified : style.leftJustify = true)
    (found : (p.counterOf? (p.format source n).text).isSome = true) :
    (Part.behindCounter n p.tokens source).head? ≠ some ' ' := by
  have fits := (isSome_counterOf?_iff numbers).1 found
  obtain ⟨front, here, back, parted, kind, plain, plain_back⟩ := numbers
  rw [Part.format, parted, Part.text_eq_around plain kind, List.map_append, List.map_cons, kind] at fits
  rw [parted] at fixed ⊢
  have fixed_front : Fixed front := (List.forall_mem_append.1 fixed).1
  have fixed_back : Fixed back := (List.forall_mem_cons.1 (List.forall_mem_append.1 fixed).2).2
  -- the tokens in front take what they wrote, and those behind the counter as well
  obtain ⟨left, split, behind⟩ := fixed_front.eq_of_fits plain fits source
  rw [← List.append_cancel_left split] at behind
  cases behind with
  | counter read fits_back =>
      rw [← List.append_nil (back.map (·.token))] at fits_back
      obtain ⟨nothing, rest, none⟩ := fixed_back.eq_of_fits plain_back fits_back (Part.leftOver front source)
      cases none
      rw [List.append_nil] at rest
      rw [Part.behindCounter_append plain kind, ← rest]
      exact CounterStyle.head?_drop_of_mem_readings justified read

/-- A part finds a counter again in every text that it formatted without a shortfall, whatever the source and
the characters around the counter, if that is not padded behind or no blank follows it. Where blanks do
follow a counter that is padded behind, it takes them all: it is found if the tokens behind it fit what
is left, and without wildcards it is not. -/
theorem isSome_counterOf?_format (read : p = Part.parse pattern taken) (has : p.hasCounter = true)
    (small : n ≤ maxCounter) (clean : (p.format source n).isClean = true) :
    ∃ style, p.counterStyle? = some style ∧
      (style.leftJustify = false ∨ (Part.behindCounter n p.tokens source).head? ≠ some ' ' →
        (p.counterOf? (p.format source n).text).isSome = true) ∧
      ((matchTokens p.tokensBehind (withoutBlanks (Part.behindCounter n p.tokens source))).isSome = true →
        (p.counterOf? (p.format source n).text).isSome = true) ∧
      (p.hasWildcard = false → ((p.counterOf? (p.format source n).text).isSome = true ↔
        style.leftJustify = false ∨ (Part.behindCounter n p.tokens source).head? ≠ some ' ')) := by
  have clean := List.isEmpty_iff.1 clean
  have numbered : ∃ style, Numbers style p.tokens := by
    rw [read] at has ⊢
    exact Spec.numbers_of_hasCounter has
  obtain ⟨style, numbers⟩ := numbered
  have apart := numbers.isSome_of_apart small clean
  refine ⟨style, numbers.style?_eq, apart, fun fits => ?_, fun no_wildcard => ⟨fun found => ?_, apart⟩⟩
  · exact numbers.isSome_counterOf? small clean fun _ => isSome_matchTokens_iff.1 fits
  · have fixed : Fixed p.tokens := by
      intro t member
      exact Bool.eq_false_iff.2 (List.any_eq_false.1 no_wildcard t member)
    cases justified : style.leftJustify with
    | false => exact .inl rfl
    | true => exact .inr (numbers.head?_of_fixed fixed justified found)

/-- Behind a counter that is padded behind, a wildcard takes what is left of the source, and a literal misses
the blank that it spells. -/
theorem isSome_counterOf?_format_padded :
    ((Part.parse "%-3d*".toList).counterOf?
      ((Part.parse "%-3d*".toList).format " x".toList 7).text).isSome = true ∧
    ¬((Part.parse "%-3d x".toList).counterOf?
      ((Part.parse "%-3d x".toList).format " x".toList 7).text).isSome = true := by
  constructor
  · have clean : ((Part.parse "%-3d*".toList).format " x".toList 7).isClean = true := by decide +kernel
    obtain ⟨style, -, -, absorbed, -⟩ := isSome_counterOf?_format rfl (by decide +kernel) (by decide) clean
    exact absorbed (by decide +kernel)
  · have clean : ((Part.parse "%-3d x".toList).format " x".toList 7).isClean = true := by decide +kernel
    obtain ⟨style, known, -, -, fixed⟩ :=
      isSome_counterOf?_format rfl (by decide +kernel) (by decide) clean
    have padded : (Part.parse "%-3d x".toList).counterStyle? = some ⟨3, false, true, .decimal⟩ := by
      decide +kernel
    obtain rfl := Option.some.inj (known.symm.trans padded)
    rw [fixed (by decide +kernel)]
    decide +kernel

/-- What was formatted without a shortfall is not always read: the counter takes the blank of the pattern. -/
theorem not_isSome_counterOf?_format :
    (Part.parse "%-3d x".toList).hasCounter = true ∧
    (Part.parse "%-3d x".toList).format [] 1 = ⟨"1   x".toList, []⟩ ∧
    (Part.parse "%-3d x".toList).counterOf? "1   x".toList = none := by
  decide +kernel

end Renumber.Pattern
