import Renumber.Proofs.Pattern.Format

/-!
# The counter that is found

Where a source without digits of the base was formatted, the search comes upon the counter
that was written and on no other number. The number of digits decides it: every digit that
the tokens spell needs one of the text, so the counter can take none of them, and the
stretch in front of it cannot end later than it did.
-/

namespace Renumber.Pattern

variable {style : CounterStyle} {post rest : List Token} {front : List Placed} {n : Nat}
  {lead digits trail tail source : List Char} {found : Option Nat}

/-- What can stand behind a written counter: tokens without a counter, and a text with no
more digits than they spell, apart from the blanks of the counter. -/
structure Behind (style : CounterStyle) (post : List Token) (tail : List Char) : Prop where
  plain : ∀ t ∈ post, t.isCounter = false
  count : tail.countP style.radix.isDigit = post.countP (Token.spells style.radix.isDigit)
  apart : style.leftJustify = true → tail.head? ≠ some ' '

/-- Text without a digit of the base. -/
def Digitless (style : CounterStyle) (s : List Char) : Prop :=
  ∀ c ∈ s, style.radix.isDigit c = false

/-! ## At the counter -/

theorem search_counter (style : CounterStyle) (rest : List Token) (s : List Char) :
    search (.counter style :: rest) s = (style.readings s).findSome? fun reading =>
      (search rest (s.drop reading.2)).map fun _ => some reading.1 :=
  rfl

/-- Digits behind the counter are not taken for its own. -/
theorem search_written (written : style.Written n lead digits trail) (small : n ≤ maxCounter)
    (behind : Behind style post tail) (fits : Fits post tail) :
    search (.counter style :: post) (lead ++ digits ++ trail ++ tail) = some (some n) := by
  obtain ⟨longer, shorter, split, fewer⟩ := style.readings_written written small behind.apart
  have passed : longer.findSome? (fun reading => (search post
      ((lead ++ digits ++ trail ++ tail).drop reading.2)).map fun _ => some reading.1) = none := by
    rw [List.findSome?_eq_none_iff]
    intro reading member
    rw [Option.map_eq_none_iff]
    apply search_eq_none
    intro unfit
    have few := fewer reading member
    have many := unfit.countP_le style.radix.isDigit
    rw [behind.count] at few
    omega
  rw [search_counter, split, List.findSome?_append, passed, List.findSome?_cons, List.drop_left,
    fits.search_eq behind.plain]
  rfl

/-- A text without digits in front of the counter is blanks of the counter or no counter
starts there. -/
theorem search_late (small : n ≤ maxCounter) (behind : Behind style post tail)
    (fits : Fits post tail) {v : List Char} (digitless : Digitless style v)
    (matched : search (.counter style :: post) (v ++ (style.render n ++ tail)) = some found) :
    found = some n := by
  obtain ⟨lead, digits, trail, shape, written⟩ := style.exists_written n
  rw [shape] at matched
  by_cases joined : v = [] ∨ (style.padsFront = true ∧ ∀ c ∈ v, c = ' ')
  · have more : style.Written n (v ++ lead) digits trail := by
      obtain rfl | ⟨pads, blanks⟩ := joined
      · exact written
      · exact written.cons_blanks pads blanks
    have own := search_written more small behind fits
    rw [List.append_assoc v, List.append_assoc v, List.append_assoc v, matched] at own
    exact Option.some.inj own
  · rw [not_or] at joined
    have never : style.readings (v ++ (lead ++ digits ++ trail ++ tail)) = [] := by
      apply style.readings_eq_nil _ joined.1 digitless
      intro pads
      by_contra none
      push Not at none
      exact joined.2 ⟨pads, none⟩
    rw [search_counter, never] at matched
    cases matched

/-! ## In front of the counter -/

/-- The wildcard leaves no more than what was written behind it. -/
theorem search_anyRest {front s : List Char} {answer : Option Nat} (fits : Fits rest s)
    (each : ∀ part, part <:+ front → ∀ found, search rest (part ++ s) = some found → found = answer)
    (matched : search (.anyRest :: rest) (front ++ s) = some found) : found = answer := by
  obtain ⟨firsts, more, split, early⟩ := suffixes_append front s
  obtain ⟨here, own⟩ := Option.isSome_iff_exists.1 fits.isSome_search
  rw [search, split, List.findSome?_append, List.findSome?_cons, own, Option.or_eq_some_iff] at matched
  obtain earlier | ⟨-, same⟩ := matched
  · obtain ⟨t, member, matched⟩ := List.exists_of_findSome?_eq_some earlier
    obtain ⟨part, ending, rfl⟩ := early t member
    exact each part ending found matched
  · rw [← Option.some.inj same]
    exact each [] List.nil_suffix here own

theorem fits_render (small : n ≤ maxCounter) (behind : Behind style post tail)
    (fits : Fits post tail) : Fits (.counter style :: post) (style.render n ++ tail) := by
  obtain ⟨lead, digits, trail, shape, written⟩ := style.exists_written n
  rw [shape]
  exact fits_written written small behind.apart fits

/-- A text without digits in front of all that was written does not lead astray. -/
theorem search_shifted (small : n ≤ maxCounter) (behind : Behind style post tail)
    (fits : Fits post tail) (plain : Plain front)
    (clean : (Part.formatTokens n front []).warnings = []) {v : List Char}
    (digitless : Digitless style v)
    (matched : search (front.map (·.token) ++ .counter style :: post)
      (v ++ ((Part.formatTokens n front []).text ++ (style.render n ++ tail))) = some found) :
    found = some n := by
  induction front generalizing v found with
  | nil => exact search_late small behind fits digitless matched
  | cons t front ih =>
      obtain ⟨own, later⟩ := List.forall_mem_cons.1 plain
      obtain ⟨offset, span, token⟩ := t
      cases token with
      | literal c =>
          cases v with
          | nil =>
              exact ih later clean digitless ((search_literal_self c _ _).symm.trans matched)
          | cons a v =>
              obtain ⟨first, others⟩ := List.forall_mem_cons.1 digitless
              have taken := (search_literal c a _ _).symm.trans matched
              split at taken
              next same =>
                -- The literal takes a character in front of its own, which is none of a digit.
                rw [same] at first
                apply ih later clean (v := v ++ [c])
                · exact List.forall_mem_append.2 ⟨others, List.forall_mem_singleton.2 first⟩
                · rwa [List.append_assoc v]
              next => cases taken
      | counter style => cases own
      | anyOne => cases clean
      | anyRest =>
          refine search_anyRest ?_ ?_ matched
          · exact Part.fits_formatTokens later clean (fits_render small behind fits)
          · intro part ending found matched
            exact ih later clean (fun c member => digitless c (ending.subset member)) matched

/-- The search finds no other number than the one that was written. -/
theorem search_formatted (small : n ≤ maxCounter) (behind : Behind style post tail)
    (fits : Fits post tail) (plain : Plain front)
    (clean : (Part.formatTokens n front source).warnings = []) (digitless : Digitless style source)
    (matched : search (front.map (·.token) ++ .counter style :: post)
      ((Part.formatTokens n front source).text ++ (style.render n ++ tail)) = some found) :
    found = some n := by
  induction front generalizing source found with
  | nil => exact search_late small behind fits (fun c never => absurd never List.not_mem_nil) matched
  | cons t front ih =>
      obtain ⟨own, later⟩ := List.forall_mem_cons.1 plain
      obtain ⟨offset, span, token⟩ := t
      cases token with
      | literal c =>
          exact ih later clean digitless ((search_literal_self c _ _).symm.trans matched)
      | counter style => cases own
      | anyOne =>
          cases source with
          | nil => cases clean
          | cons c source => exact ih later clean (List.forall_mem_cons.1 digitless).2 matched
      | anyRest =>
          have split : (Part.formatTokens n (⟨offset, span, .anyRest⟩ :: front) source).text ++
              (style.render n ++ tail) = source ++ ((Part.formatTokens n front []).text ++
                (style.render n ++ tail)) := List.append_assoc _ _ _
          rw [split] at matched
          refine search_anyRest ?_ ?_ matched
          · exact Part.fits_formatTokens later clean (fits_render small behind fits)
          · intro part ending found matched
            exact search_shifted small behind fits later clean
              (fun c member => digitless c (ending.subset member)) matched

/-! ## Where the tokens behind the counter do not fit -/

/-- Tokens behind others fit an end of the text. -/
theorem Fits.end_of_append {front : List Token} {s : List Char} (fits : Fits (front ++ rest) s) :
    ∃ ahead ending, s = ahead ++ ending ∧ Fits rest ending := by
  induction front generalizing s with
  | nil => exact ⟨[], s, rfl, fits⟩
  | cons t front ih =>
      cases fits with
      | literal c fits =>
          obtain ⟨ahead, ending, rfl, behind⟩ := ih fits
          exact ⟨c :: ahead, ending, rfl, behind⟩
      | anyOne c fits =>
          obtain ⟨ahead, ending, rfl, behind⟩ := ih fits
          exact ⟨c :: ahead, ending, rfl, behind⟩
      | anyRest more fits =>
          obtain ⟨ahead, ending, rfl, behind⟩ := ih fits
          exact ⟨more ++ ahead, ending, (List.append_assoc _ _ _).symm, behind⟩
      | @counter _ _ used _ _ _ fits =>
          obtain ⟨ahead, ending, split, behind⟩ := ih fits
          refine ⟨s.take used ++ ahead, ending, ?_, behind⟩
          rw [List.append_assoc, ← split, List.take_append_drop]

/-- The last digits of a text part it in one way only. -/
theorem eq_of_last_digits {p : Char → Bool} {a b digits digits' x y : List Char}
    (some_digit : digits ≠ [] ∧ ∀ c ∈ digits, p c = true)
    (some_digit' : digits' ≠ [] ∧ ∀ c ∈ digits', p c = true) (left : ∀ c ∈ x, p c = false)
    (right : ∀ c ∈ y, p c = false) (same : a ++ digits ++ x = b ++ digits' ++ y) : x = y := by
  have parted : ∀ {a digits x : List Char}, digits ≠ [] ∧ (∀ c ∈ digits, p c = true) →
      (∀ c ∈ x, p c = false) → (a ++ digits ++ x).reverse.takeWhile (fun c => !p c) = x.reverse := by
    intro a digits x ⟨some_digit, digit⟩ none
    obtain ⟨d, more, shape⟩ := List.exists_cons_of_ne_nil (mt List.reverse_eq_nil_iff.1 some_digit)
    have last : p d = true := by
      apply digit
      rw [← List.mem_reverse, shape]
      exact List.mem_cons_self
    rw [List.reverse_append, List.reverse_append, shape, List.cons_append,
      List.takeWhile_append_of_pos, List.takeWhile_cons_of_neg, List.append_nil]
    · rw [last]
      exact Bool.false_ne_true
    · intro c member
      rw [none c (List.mem_reverse.1 member)]
      rfl
  rw [← List.reverse_inj, ← parted some_digit left, same, parted some_digit' right]

/-- Where tokens with a counter fit a text with a written counter in it, the tokens behind the
counter fit what is behind the written one. -/
theorem Behind.fits {front : List Token} {head : List Char} (behind : Behind style post tail)
    (around : ∀ w, Fits post (w ++ tail) → Fits post tail)
    (fits : Fits (front ++ .counter style :: post) (head ++ (style.render n ++ tail))) :
    Fits post tail := by
  obtain ⟨lead, digits, trail, shape, written⟩ := style.exists_written n
  obtain ⟨ahead, ending, split, later⟩ := fits.end_of_append
  cases later with
  | @counter _ value used _ _ read left_fits =>
      obtain ⟨lead', digits', trail', written', parted⟩ := style.exists_of_mem_readings read
      generalize ending.drop used = left at left_fits parted
      have split : ahead ++ (lead' ++ digits' ++ trail') ++ left = head ++ style.render n ++ tail := by
        rw [List.append_assoc, ← parted, ← split, List.append_assoc]
      obtain ⟨w, early, rfl⟩ | ⟨w, late, rfl⟩ := List.append_eq_append_iff.1 split
      · exact around w left_fits
      · -- All digits of the text behind are left to the tokens, so the counter found ends with
        -- the last digit of the one that was written.
        have none : ∀ c ∈ w, style.radix.isDigit c = false := by
          have many := left_fits.countP_le style.radix.isDigit
          have count := behind.count
          rw [List.countP_append] at count
          have zero : w.countP style.radix.isDigit = 0 := by omega
          intro c member
          exact Bool.eq_false_iff.2 (List.countP_eq_zero.1 zero c member)
        have bare : ∀ blanks : List Char, (∀ c ∈ blanks, c = ' ') →
            ∀ c ∈ blanks, style.radix.isDigit c = false := by
          intro blanks each c member
          rw [each c member]
          exact Radix.isDigit_blank _
        have tails : trail' = trail ++ w := by
          apply eq_of_last_digits (a := ahead ++ lead') (b := head ++ lead)
            ⟨written'.some_digit, written'.each_digit⟩ ⟨written.some_digit, written.each_digit⟩
          · exact bare trail' written'.trail_blank
          · exact List.forall_mem_append.2 ⟨bare trail written.trail_blank, none⟩
          · rw [shape] at late
            simpa using late
        cases w with
        | nil => exact left_fits
        | cons c w =>
            cases justified : style.leftJustify with
            | false =>
                rw [written'.trail_nil justified] at tails
                exact absurd tails.symm (by simp)
            | true =>
                have blank : c = ' ' := by
                  apply written'.trail_blank
                  rw [tails]
                  simp
                rw [blank] at behind
                exact absurd rfl (behind.apart justified)

/-! ## A part with a counter -/

variable {back tokens : List Placed} {here : Placed} {z : List Char}

theorem Digitless.countP (digitless : Digitless style z) : z.countP style.radix.isDigit = 0 := by
  rw [List.countP_eq_zero]
  intro c member
  rw [digitless c member]
  exact Bool.false_ne_true

/-- What a formatted part writes around its counter. -/
theorem Numbers.exists_around (numbers : Numbers style tokens) (digitless : Digitless style source)
    (clean : (Part.formatTokens n tokens source).warnings = []) : ∃ front post,
      tokens.map (·.token) = front.map (·.token) ++ .counter style :: post ∧
      (Part.formatTokens n tokens source).text = (Part.formatTokens n front source).text ++
        (style.render n ++ Part.behindCounter n tokens source) ∧
      Plain front ∧ (Part.formatTokens n front source).warnings = [] ∧
      (∀ t ∈ post, t.isCounter = false) ∧ Fits post (Part.behindCounter n tokens source) ∧
      (Part.behindCounter n tokens source).countP style.radix.isDigit =
        post.countP (Token.spells style.radix.isDigit) := by
  obtain ⟨front, here, back, rfl, kind, plain, plain_back⟩ := numbers
  obtain ⟨clean_front, clean_back⟩ := Part.clean_around kind clean
  have left : Digitless style (Part.leftOver front source) :=
    fun c member => digitless c ((Part.leftOver_suffix front source).subset member)
  refine ⟨front, back.map (·.token), ?_, Part.text_eq_around plain kind, plain, clean_front,
    plain_back.map_token, ?_, ?_⟩
  · rw [List.map_append, List.map_cons, kind]
  · rw [Part.behindCounter_append plain kind]
    exact Part.fits_text plain_back clean_back
  · rw [Part.behindCounter_append plain kind]
    apply Part.countP_formatTokens _ left
    intro style never
    cases plain_back.map_token _ never

/-- In front of more text without digits, the counter of a formatted part is found or none is. -/
theorem Numbers.eq_of_search (numbers : Numbers style tokens) (small : n ≤ maxCounter)
    (digitless : Digitless style source) (clean : (Part.formatTokens n tokens source).warnings = [])
    (bare : Digitless style z) (apart : style.leftJustify = true →
      (Part.behindCounter n tokens source ++ z).head? ≠ some ' ')
    (matched : search (tokens.map (·.token)) ((Part.formatTokens n tokens source).text ++ z) =
      some found) : found = some n := by
  obtain ⟨front, post, same, text, plain, clean, plain_post, fits_post, count⟩ :=
    numbers.exists_around digitless clean
  rw [same, text, List.append_assoc, List.append_assoc] at matched
  have behind : Behind style post (Part.behindCounter n tokens source ++ z) := by
    refine ⟨plain_post, ?_, apart⟩
    rw [List.countP_append, bare.countP, count, Nat.add_zero]
  have fits : Fits post (Part.behindCounter n tokens source ++ z) := by
    apply behind.fits _ (fits_of_search matched)
    intro w around
    rw [← List.append_assoc] at around
    exact fits_post.of_around plain_post around
  exact search_formatted small behind fits plain clean digitless matched

/-- The counter of a formatted part is found. -/
theorem Numbers.search_eq (numbers : Numbers style tokens) (small : n ≤ maxCounter)
    (digitless : Digitless style source) (clean : (Part.formatTokens n tokens source).warnings = [])
    (apart : style.leftJustify = true → (Part.behindCounter n tokens source).head? ≠ some ' ') :
    search (tokens.map (·.token)) (Part.formatTokens n tokens source).text = some (some n) := by
  obtain ⟨front, post, same, text, plain, clean_front, plain_post, fits_post, count⟩ :=
    numbers.exists_around digitless clean
  have behind : Behind style post (Part.behindCounter n tokens source) :=
    ⟨plain_post, count, apart⟩
  have fits : Fits (tokens.map (·.token)) (Part.formatTokens n tokens source).text := by
    rw [same, text]
    exact Part.fits_formatTokens plain clean_front (fits_render small behind fits_post)
  obtain ⟨found, matched⟩ := Option.isSome_iff_exists.1 fits.isSome_search
  rw [matched]
  rw [same, text] at matched
  rw [search_formatted small behind fits_post plain clean_front digitless matched]

end Renumber.Pattern
