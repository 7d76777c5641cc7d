import Renumber.Proofs.Pattern.Found
import Renumber.Proofs.Pattern.Once

/-!
# The counter of a formatted name

A pattern finds the counter again in a name that it formatted. A name is first read as a
whole and then cut at each dot from the last on, so it has to be shown that no cut before the
true one gives another number: an extension that starts at a dot inside the true one lacks
that dot, and the whole name is only read as one where the extension spells nothing.
-/

namespace Renumber.Pattern

variable {style : CounterStyle} {tokens : List Placed} {n : Nat} {source : List Char}

/-! ## Styles -/

/-- The style of a counter token. -/
def Token.style? : Token → Option CounterStyle
  | counter style => some style
  | _ => none

/-- The style of the counter of a part. -/
def Part.counterStyle? (p : Part) : Option CounterStyle :=
  p.tokens.findSome? (·.token.style?)

/-- The style of the counter of a pattern. -/
def Spec.counterStyle? (s : Spec) : Option CounterStyle :=
  s.name.counterStyle? <|> s.extension.part?.bind Part.counterStyle?

theorem Plain.style?_eq_none (plain : Plain tokens) : tokens.findSome? (·.token.style?) = none := by
  rw [List.findSome?_eq_none_iff]
  intro t member
  have own := plain t member
  cases kind : t.token with
  | counter style =>
      rw [kind] at own
      cases own
  | _ => rfl

theorem Numbers.style?_eq (numbers : Numbers style tokens) :
    tokens.findSome? (·.token.style?) = some style := by
  obtain ⟨front, here, back, rfl, kind, plain, -⟩ := numbers
  rw [List.findSome?_append, plain.style?_eq_none, List.findSome?_cons, kind]
  rfl

theorem Numbers.any_isCounter (numbers : Numbers style tokens) :
    tokens.any (·.token.isCounter) = true := by
  obtain ⟨front, here, back, rfl, kind, -⟩ := numbers
  rw [List.any_append, List.any_cons, kind]
  exact Bool.or_true _

theorem Plain.any_isCounter (plain : Plain tokens) : tokens.any (·.token.isCounter) = false := by
  rw [List.any_eq_false]
  intro t member
  rw [plain t member]
  exact Bool.false_ne_true

/-- A counter is written with blanks and digits. -/
theorem CounterStyle.notMem_render {style : CounterStyle} {c : Char} (no_blank : c ≠ ' ')
    (no_digit : style.radix.isDigit c = false) (n : Nat) : c ∉ style.render n := by
  obtain ⟨lead, digits, trail, shape, written⟩ := style.exists_written n
  rw [shape]
  intro member
  rw [List.mem_append, List.mem_append] at member
  obtain (lead | digit) | trail := member
  · exact no_blank (written.lead_blank c lead)
  · have digit := written.each_digit c digit
    rw [no_digit] at digit
    cases digit
  · exact no_blank (written.trail_blank c trail)

/-- A written counter holds no dot. -/
theorem CounterStyle.dot_notMem_render (style : CounterStyle) (n : Nat) :
    ∀ c ∈ style.render n, (c == '.') = false := by
  intro c member
  rw [beq_eq_false_iff_ne]
  rintro rfl
  exact notMem_render (by decide) (Radix.isDigit_dot _) n member

theorem CounterStyle.render_ne_nil (style : CounterStyle) (n : Nat) : style.render n ≠ [] := by
  obtain ⟨lead, digits, trail, shape, written⟩ := style.exists_written n
  rw [shape]
  intro none
  exact written.some_digit (List.append_eq_nil_iff.1 (List.append_eq_nil_iff.1 none).1).2

/-- A counter needs a digit. -/
theorem Numbers.not_fits_nil (numbers : Numbers style tokens) : ¬ Fits (tokens.map (·.token)) [] := by
  obtain ⟨front, here, back, rfl, kind, -⟩ := numbers
  rw [List.map_append, List.map_cons, kind]
  intro fits
  obtain ⟨ahead, ending, split, later⟩ := fits.end_of_append
  rw [(List.append_eq_nil_iff.1 split.symm).2] at later
  cases later with
  | counter read =>
      obtain ⟨lead, digits, trail, written, parted⟩ := style.exists_of_mem_readings read
      rw [List.append_assoc, List.append_assoc] at parted
      exact written.some_digit
        (List.append_eq_nil_iff.1 (List.append_eq_nil_iff.1 parted.symm).2).1

/-! ## Cuts of a name -/

theorem splitLastDot?_of_notMem {s : List Char} (no_dot : '.' ∉ s) : splitLastDot? s = none := by
  have all : s.reverse.takeWhile (· != '.') = s.reverse := by
    rw [List.takeWhile_eq_self_iff]
    intro c member
    rw [bne_iff_ne]
    rintro rfl
    exact no_dot (List.mem_reverse.1 member)
  rw [splitLastDot?, all, List.length_reverse]
  exact if_neg (lt_irrefl _)

theorem splitLastDot?_append {extension : List Char} (no_dot : '.' ∉ extension) (stem : List Char) :
    splitLastDot? (stem ++ '.' :: extension) = some (stem, extension) := by
  have behind : (stem ++ '.' :: extension).reverse.takeWhile (· != '.') = extension.reverse := by
    rw [List.reverse_append, List.reverse_cons, List.append_assoc, List.takeWhile_append_of_pos]
    · exact List.append_nil _
    · intro c member
      rw [bne_iff_ne]
      rintro rfl
      exact no_dot (List.mem_reverse.1 member)
  rw [splitLastDot?, behind, List.length_reverse, List.length_append, List.length_cons,
    if_pos (by omega), List.reverse_reverse]
  have front : stem.length + (extension.length + 1) - extension.length - 1 = stem.length := by omega
  rw [front, List.take_left]

/-- A text is split at its last dot, if it has one. -/
theorem splitLastDot?_cases (s : List Char) :
    '.' ∉ s ∧ splitLastDot? s = none ∨
      ∃ stem extension, s = stem ++ '.' :: extension ∧ '.' ∉ extension ∧
        splitLastDot? s = some (stem, extension) := by
  by_cases dot : '.' ∈ s
  · obtain ⟨extension, stem, all, no_dot⟩ := List.eq_append_cons_of_mem (List.mem_reverse.2 dot)
    have split : s = stem.reverse ++ '.' :: extension.reverse := by
      rw [← List.reverse_reverse s, all, List.reverse_append, List.reverse_cons, List.append_assoc]
      rfl
    have no_dot : '.' ∉ extension.reverse := mt List.mem_reverse.1 no_dot
    refine .inr ⟨stem.reverse, extension.reverse, split, no_dot, ?_⟩
    rw [split]
    exact splitLastDot?_append no_dot _
  · exact .inl ⟨dot, splitLastDot?_of_notMem dot⟩

/-- The stem and the extension hold characters of the name only, and the extension no dot. -/
theorem splitName_spec (name : List Char) :
    (∀ c ∈ (splitName name).1, c ∈ name) ∧ ∀ c ∈ (splitName name).2, c ∈ name ∧ c ≠ '.' := by
  have whole : ∀ name : List Char,
      (∀ c ∈ name, c ∈ name) ∧ ∀ c ∈ ([] : List Char), c ∈ name ∧ c ≠ '.' :=
    fun name => ⟨fun _ member => member, fun c never => absurd never List.not_mem_nil⟩
  obtain ⟨-, undotted⟩ | ⟨stem, extension, rfl, no_dot, parts⟩ := splitLastDot?_cases name
  · rw [splitName, undotted]
    exact whole name
  · rw [splitName, parts]
    dsimp only
    split
    · exact whole _
    · refine ⟨fun c member => List.mem_append_left _ member, fun c member => ⟨?_, ?_⟩⟩
      · exact List.mem_append_right _ (List.mem_cons_of_mem _ member)
      · rintro rfl
        exact no_dot member

/-- The cut at one place of a name, if there is a dot. -/
def cutAt? (name : List Char) (i : Nat) : Option (List Char × Option (List Char)) :=
  if name[i]? = some '.' then some (name.take i, some (name.drop (i + 1))) else none

theorem cuts_eq (name : List Char) : Spec.cuts name =
    (name, none) :: (List.range name.length).reverse.filterMap (cutAt? name) :=
  rfl

theorem cutAt?_dot (stem extension : List Char) :
    cutAt? (stem ++ '.' :: extension) stem.length = some (stem, some extension) := by
  rw [cutAt?, if_pos (by simp)]
  simp

/-- A cut behind a dot is a cut of what follows the dot. -/
theorem exists_of_cutAt? {stem extension : List Char} {i : Nat} {cut : List Char × Option (List Char)}
    (found : cutAt? (stem ++ '.' :: extension) (stem.length + (i + 1)) = some cut) :
    ∃ a b, extension = a ++ '.' :: b ∧ cut = (stem ++ '.' :: a, some b) := by
  rw [cutAt?] at found
  split at found
  next dot =>
    rw [List.getElem?_append_right (Nat.le_add_right _ _), Nat.add_sub_cancel_left,
      List.getElem?_cons_succ] at dot
    obtain ⟨small, dot⟩ := List.getElem?_eq_some_iff.1 dot
    refine ⟨extension.take i, extension.drop (i + 1), ?_, ?_⟩
    · rw [← dot, List.getElem_cons_drop, List.take_append_drop]
    · rw [← Option.some.inj found, List.take_length_add_append, List.take_succ_cons, Nat.add_assoc,
        List.drop_length_add_append]
      rfl
  next => cases found

/-- A name with a dot is cut inside what follows the dot before it is cut there. -/
theorem cuts_append (stem extension : List Char) : ∃ inner more,
    Spec.cuts (stem ++ '.' :: extension) = (stem ++ '.' :: extension, none) ::
      (inner ++ (stem, some extension) :: more) ∧
    ∀ cut ∈ inner, ∃ a b, extension = a ++ '.' :: b ∧ cut = (stem ++ '.' :: a, some b) := by
  rw [cuts_eq, List.length_append, List.length_cons, List.range_add, List.range_succ_eq_map,
    List.map_cons, List.map_map, List.reverse_append, List.reverse_cons, List.append_assoc,
    List.filterMap_append, List.singleton_append, Nat.add_zero,
    List.filterMap_cons_some (cutAt?_dot stem extension)]
  refine ⟨_, _, rfl, ?_⟩
  intro cut member
  obtain ⟨i, inside, found⟩ := List.mem_filterMap.1 member
  rw [List.mem_reverse, List.mem_map] at inside
  obtain ⟨i, -, rfl⟩ := inside
  exact exists_of_cutAt? found

/-! ## Readings of a cut -/

theorem Part.match?_eq (p : Part) (s : List Char) : p.match? s = search (p.tokens.map (·.token)) s :=
  matchTokens_eq_search _ s

namespace Spec

variable {s : Spec} {part : Part} {stem ext : List Char}

/-- The text that a pattern writes behind its counter. -/
def behindCounter (s : Spec) (n : Nat) (name : List Char) : List Char :=
  let (stem, extension) := splitName name
  if s.name.hasCounter then
    let ext := (s.extension.part?.map fun part => (part.format extension n).text).getD []
    Part.behindCounter n s.name.tokens stem ++ if ext.isEmpty then [] else '.' :: ext
  else (s.extension.part?.map fun part => Part.behindCounter n part.tokens extension).getD []

/-- What an extension cannot have written is not read as one. -/
theorem counterOfCut?_eq_none (has : s.extension.part? = some part) (extension : Option (List Char))
    (unfit : ¬ Fits (part.tokens.map (·.token)) (extension.getD [])) :
    s.counterOfCut? stem extension = none := by
  rw [counterOfCut?, has]
  cases s.name.match? stem with
  | none => rfl
  | some found =>
      dsimp only
      rw [Part.match?_eq, search_eq_none unfit]

/-- An extension without a counter leaves that of the stem. -/
theorem counterOfCut?_plain (has : s.extension.part? = some part) (plain : Plain part.tokens)
    (extension : Option (List Char)) (fits : Fits (part.tokens.map (·.token)) (extension.getD [])) :
    s.counterOfCut? stem extension = (s.name.match? stem).join := by
  rw [counterOfCut?, has]
  cases s.name.match? stem with
  | none => rfl
  | some found =>
      dsimp only
      rw [Part.match?_eq, fits.search_eq plain.map_token]
      cases found <;> rfl

/-- Every dot of a formatted extension is spelled by its tokens, so what follows one of them
was not formatted whole. -/
theorem not_fits_behind_dot {tokens : List Placed} {a b : List Char} (dotless : ∀ c ∈ source, c ≠ '.')
    (split : (Part.formatTokens n tokens source).text = a ++ '.' :: b) :
    ¬ Fits (tokens.map (·.token)) b := by
  intro fits
  have many := fits.countP_le (· == '.')
  have count : (Part.formatTokens n tokens source).text.countP (· == '.') = _ :=
    Part.countP_formatTokens _ (fun c member => beq_eq_false_iff_ne.2 (dotless c member))
      (fun style _ => style.dot_notMem_render n)
  rw [split, List.countP_append, List.countP_cons_of_pos rfl] at count
  omega

theorem counterOf?_eq (has : s.hasCounter = true) (name : List Char) :
    s.counterOf? name = (cuts name).findSome? fun cut => s.counterOfCut? cut.1 cut.2 := by
  rw [counterOf?, if_pos has]

/-! ## The name as a whole -/

/-- The first cut that is read decides. -/
theorem findSome?_cuts {stem extension : List Char} {f : List Char × Option (List Char) → Option Nat}
    {answer : Nat} (whole : ∀ found, f (stem ++ '.' :: extension, none) = some found → found = answer)
    (inner : ∀ a b, extension = a ++ '.' :: b → f (stem ++ '.' :: a, some b) = none)
    (here : f (stem, some extension) = some answer) :
    (cuts (stem ++ '.' :: extension)).findSome? f = some answer := by
  obtain ⟨firsts, more, split, each⟩ := cuts_append stem extension
  have passed : firsts.findSome? f = none := by
    rw [List.findSome?_eq_none_iff]
    intro cut member
    obtain ⟨a, b, shape, rfl⟩ := each cut member
    exact inner a b shape
  rw [split, List.findSome?_cons]
  cases found : f (stem ++ '.' :: extension, none) with
  | some found' => rw [whole found' found]
  | none => rw [List.findSome?_append, passed, List.findSome?_cons, here]; rfl

/-- A pattern that drops the extension writes the name alone. -/
theorem formatName_drop (has : s.extension.part? = none) (name : List Char) (n : Nat) :
    s.formatName name n none = s.name.format (splitName name).1 n := by
  rw [formatName, has]
  cases splitName name with
  | mk stem extension =>
      show Formatted.mk (_ ++ []) _ = _
      rw [List.append_nil]

/-- An extension follows the name behind a dot, unless it is empty. -/
theorem formatName_part (has : s.extension.part? = some part) (name : List Char) (n : Nat) :
    s.formatName name n none = ⟨(s.name.format (splitName name).1 n).text ++
        (if (part.format (splitName name).2 n).text.isEmpty then []
          else '.' :: (part.format (splitName name).2 n).text),
      (s.name.format (splitName name).1 n).warnings ++
        (part.format (splitName name).2 n).warnings⟩ := by
  rw [formatName, has]
  cases splitName name with
  | mk stem extension =>
      show Formatted.mk (if _ then _ ++ [] else _ ++ [] ++ _) _ = _
      rw [List.append_nil]
      split
      next => rw [List.append_nil]
      next => rfl

theorem behindCounter_drop (has : s.extension.part? = none) (numbers : s.name.hasCounter = true)
    (name : List Char) :
    s.behindCounter n name = Part.behindCounter n s.name.tokens (splitName name).1 := by
  rw [behindCounter, has]
  cases splitName name with
  | mk stem extension =>
      show (if _ then _ ++ [] else _) = _
      rw [if_pos numbers, List.append_nil]

theorem behindCounter_name (has : s.extension.part? = some part) (numbers : s.name.hasCounter = true)
    (name : List Char) :
    s.behindCounter n name = Part.behindCounter n s.name.tokens (splitName name).1 ++
      if (part.format (splitName name).2 n).text.isEmpty then []
      else '.' :: (part.format (splitName name).2 n).text := by
  rw [behindCounter, has]
  exact if_pos numbers

theorem behindCounter_extension (has : s.extension.part? = some part)
    (plain : s.name.hasCounter = false) (name : List Char) :
    s.behindCounter n name = Part.behindCounter n part.tokens (splitName name).2 := by
  rw [behindCounter, has]
  show (if s.name.hasCounter = true then _ else _) = _
  rw [plain]
  rfl

theorem head?_ne_of_append {a b : List Char} (apart : (a ++ b).head? ≠ some ' ') :
    a.head? ≠ some ' ' := by
  cases a with
  | nil => exact nofun
  | cons c a => exact apart

/-- An extension that can be empty spells no digit. -/
theorem digitless_of_fits_nil {tokens : List Placed} (plain : Plain tokens)
    (fits : Fits (tokens.map (·.token)) []) (digitless : Digitless style source) :
    Digitless style (Part.formatTokens n tokens source).text := by
  have none := fits.countP_le style.radix.isDigit
  have count : (Part.formatTokens n tokens source).text.countP style.radix.isDigit = _ :=
    Part.countP_formatTokens _ digitless (fun style never => by cases plain.map_token _ never)
  rw [← count, List.countP_nil, Nat.le_zero, List.countP_eq_zero] at none
  intro c member
  exact Bool.eq_false_iff.2 (none c member)

variable {name : List Char}

/-- A counter in the name is found again. -/
theorem counterOf?_of_name (numbers : Numbers style s.name.tokens)
    (plain : ∀ part, s.extension.part? = some part → Plain part.tokens) (small : n ≤ maxCounter)
    (digitless : Digitless style name) (clean : (s.formatName name n none).warnings = [])
    (apart : style.leftJustify = true → (s.behindCounter n name).head? ≠ some ' ') :
    s.counterOf? (s.formatName name n none).text = some n := by
  have has_counter : s.name.hasCounter = true := numbers.any_isCounter
  have digitless_stem : Digitless style (splitName name).1 :=
    fun c member => digitless c ((splitName_spec name).1 c member)
  have digitless_ext : Digitless style (splitName name).2 :=
    fun c member => digitless c ((splitName_spec name).2 c member).1
  rw [counterOf?_eq (by rw [hasCounter, has_counter, Bool.true_or])]
  cases has : s.extension.part? with
  | none =>
      rw [behindCounter_drop has has_counter] at apart
      rw [formatName_drop has] at clean ⊢
      have own : s.name.match? (s.name.format (splitName name).1 n).text = some (some n) :=
        (Part.match?_eq _ _).trans (numbers.search_eq small digitless_stem clean apart)
      rw [cuts_eq, List.findSome?_cons, counterOfCut?, own, has]
  | some part =>
      have plain := plain part has
      rw [behindCounter_name has has_counter] at apart
      rw [formatName_part has] at clean ⊢
      obtain ⟨clean, clean_ext⟩ := List.append_eq_nil_iff.1 clean
      have own : s.name.match? (s.name.format (splitName name).1 n).text = some (some n) :=
        (Part.match?_eq _ _).trans (numbers.search_eq small digitless_stem clean
          fun justified => head?_ne_of_append (apart justified))
      have fits : Fits (part.tokens.map (·.token)) (part.format (splitName name).2 n).text :=
        Part.fits_text plain clean_ext
      cases empty : (part.format (splitName name).2 n).text with
      | nil =>
          rw [empty] at fits
          show (cuts (_ ++ [])).findSome? _ = _
          rw [List.append_nil, cuts_eq, List.findSome?_cons,
            counterOfCut?_plain has plain none fits, own]
          rfl
      | cons c ext =>
          rw [empty] at fits apart
          show (cuts (_ ++ '.' :: (c :: ext))).findSome? _ = _
          apply findSome?_cuts
          · intro found whole
            by_cases unwritten : Fits (part.tokens.map (·.token)) []
            · rw [counterOfCut?_plain has plain none unwritten, Part.match?_eq,
                Option.join_eq_some_iff] at whole
              have bare : Digitless style ('.' :: c :: ext) := by
                refine List.forall_mem_cons.2 ⟨Radix.isDigit_dot _, ?_⟩
                rw [← empty]
                exact digitless_of_fits_nil plain unwritten digitless_ext
              exact Option.some.inj
                (numbers.eq_of_search small digitless_stem clean bare apart whole)
            · rw [counterOfCut?_eq_none has none unwritten] at whole
              cases whole
          · intro a b split
            exact counterOfCut?_eq_none has (some b) (not_fits_behind_dot
              (fun c member => ((splitName_spec name).2 c member).2) (empty.trans split))
          · rw [counterOfCut?_plain has plain (some (c :: ext)) fits, own]
            rfl

/-- A counter in the extension is found again. -/
theorem counterOf?_of_extension (plain : Plain s.name.tokens) (has : s.extension.part? = some part)
    (numbers : Numbers style part.tokens) (small : n ≤ maxCounter) (digitless : Digitless style name)
    (clean : (s.formatName name n none).warnings = [])
    (apart : style.leftJustify = true → (s.behindCounter n name).head? ≠ some ' ') :
    s.counterOf? (s.formatName name n none).text = some n := by
  have digitless_ext : Digitless style (splitName name).2 :=
    fun c member => digitless c ((splitName_spec name).2 c member).1
  have has_counter : s.hasCounter = true := by
    rw [hasCounter, has]
    exact (congrArg (s.name.hasCounter || ·) numbers.any_isCounter).trans (Bool.or_true _)
  rw [behindCounter_extension has plain.any_isCounter] at apart
  rw [formatName_part has] at clean ⊢
  obtain ⟨clean_name, clean⟩ := List.append_eq_nil_iff.1 clean
  have own : part.match? (part.format (splitName name).2 n).text = some (some n) :=
    (Part.match?_eq _ _).trans (numbers.search_eq small digitless_ext clean apart)
  have front : s.name.match? (s.name.format (splitName name).1 n).text = some none :=
    (Part.match?_eq _ _).trans ((Part.fits_text plain clean_name).search_eq plain.map_token)
  cases written : (part.format (splitName name).2 n).text with
  | nil =>
      rw [written, Part.match?_eq] at own
      exact absurd (fits_of_search own) numbers.not_fits_nil
  | cons c ext =>
      rw [counterOf?_eq has_counter]
      show (cuts (_ ++ '.' :: (c :: ext))).findSome? _ = _
      apply findSome?_cuts
      · intro found whole
        rw [counterOfCut?_eq_none has none numbers.not_fits_nil] at whole
        cases whole
      · intro a b split
        exact counterOfCut?_eq_none has (some b) (not_fits_behind_dot
          (fun c member => ((splitName_spec name).2 c member).2) (written.trans split))
      · rw [written] at own
        rw [counterOfCut?, front, has]
        dsimp only
        rw [Option.getD_some, own]
        rfl

/-! ## The counter that a pattern finds -/

/-- Patterns that are put together from their parts or read from one text. -/
inductive Built : Spec → Prop where
  | parts (name extension : List Char) : Built (ofParts name extension)
  | text (pattern : List Char) : Built (parse pattern)

theorem Built.exists_parts (built : s.Built) : ∃ name extension, s = ofParts name extension := by
  cases built with
  | parts name extension => exact ⟨name, extension, rfl⟩
  | text pattern =>
      rw [parse]
      split
      next name extension _ => exact ⟨name, _, rfl⟩
      next => exact ⟨pattern, [], rfl⟩

theorem tokens_star : (Part.parse ['*']).tokens = [⟨0, ['*'], .anyRest⟩] := by
  rw [Part.parse, tokenize, pieces, pieces]
  rfl

theorem plain_star : Plain (Part.parse ['*']).tokens := by
  rw [tokens_star]
  exact List.forall_mem_singleton.2 rfl

/-- A part that is read has one counter at most. -/
theorem plain_or_numbers_parse (pattern : List Char) (taken : Bool) :
    Plain (Part.parse pattern taken).tokens ∨ ∃ style, Numbers style (Part.parse pattern taken).tokens := by
  cases taken with
  | true => exact .inl (plain_place 0 (pieces pattern))
  | false => exact plain_or_numbers 0 (pieces pattern)

/-- Where a part has the style of a counter, one of its tokens has it. -/
theorem numbers_of_style {pattern : List Char} {taken : Bool}
    (numbered : (Part.parse pattern taken).counterStyle? = some style) :
    Numbers style (Part.parse pattern taken).tokens := by
  rw [Part.counterStyle?] at numbered
  obtain plain | ⟨style', numbers⟩ := plain_or_numbers_parse pattern taken
  · rw [plain.style?_eq_none] at numbered
    cases numbered
  · rw [numbers.style?_eq] at numbered
    rwa [← Option.some.inj numbered]

/-- A part that has a counter is numbered in some style. -/
theorem numbers_of_hasCounter {pattern : List Char} {taken : Bool}
    (has : (Part.parse pattern taken).hasCounter = true) :
    ∃ style, Numbers style (Part.parse pattern taken).tokens := by
  obtain plain | numbers := plain_or_numbers_parse pattern taken
  · rw [Part.hasCounter, plain.any_isCounter] at has
    cases has
  · exact numbers

/-- The extension was read from some pattern, and has no counter where the name has one. -/
theorem exists_parse {name extension : List Char}
    (own : (ofParts name extension).extension.part? = some part) :
    (∃ pattern taken, part = Part.parse pattern taken) ∧
      ((Part.parse name).hasCounter = true → Plain part.tokens) := by
  rw [ofParts] at own
  dsimp only at own
  split at own
  next =>
    rw [← Option.some.inj own]
    exact ⟨⟨['*'], false, rfl⟩, fun _ => plain_star⟩
  next =>
    split at own
    next => cases own
    next =>
      rw [← Option.some.inj own]
      refine ⟨⟨extension, (Part.parse name).hasCounter, rfl⟩, ?_⟩
      intro has
      rw [has]
      exact plain_place 0 (pieces extension)

/-- The counter is in the name, or in the extension where the name has none. -/
theorem Built.numbers (built : s.Built) (numbered : s.counterStyle? = some style) :
    (Numbers style s.name.tokens ∧ ∀ part, s.extension.part? = some part → Plain part.tokens) ∨
      (Plain s.name.tokens ∧ ∃ part, s.extension.part? = some part ∧ Numbers style part.tokens) := by
  obtain ⟨name, extension, rfl⟩ := built.exists_parts
  rw [counterStyle?] at numbered
  obtain plain | ⟨style', numbers⟩ := plain_or_numbers 0 (pieces name)
  · rw [show (ofParts name extension).name.counterStyle? = none from plain.style?_eq_none] at numbered
    obtain ⟨part, has, numbered⟩ := Option.bind_eq_some_iff.1 numbered
    obtain ⟨⟨pattern, taken, rfl⟩, -⟩ := exists_parse has
    exact .inr ⟨plain, _, has, numbers_of_style numbered⟩
  · rw [show (ofParts name extension).name.counterStyle? = some style' from numbers.style?_eq] at numbered
    rw [← Option.some.inj numbered]
    exact .inl ⟨numbers, fun part own => (exists_parse own).2 numbers.any_isCounter⟩

/-- The counter of a name that was formatted from one without digits, and without shortfalls,
is found again, whatever wildcards, digits and dots stand around it. A counter that is padded
behind has to end before the text that follows it. -/
theorem counterOf?_formatName (built : s.Built) (numbered : s.counterStyle? = some style)
    (digitless : ∀ c ∈ name, style.radix.isDigit c = false) (small : n ≤ maxCounter)
    (clean : (s.formatName name n none).warnings = [])
    (apart : style.leftJustify = false ∨ (s.behindCounter n name).head? ≠ some ' ') :
    s.counterOf? (s.formatName name n none).text = some n := by
  have apart : style.leftJustify = true → (s.behindCounter n name).head? ≠ some ' ' := by
    intro justified
    apply apart.resolve_left
    rw [justified]
    exact Bool.true_eq_false.mp
  obtain ⟨numbers, plain⟩ | ⟨plain, part, has, numbers⟩ := built.numbers numbered
  · exact counterOf?_of_name numbers plain small digitless clean apart
  · exact counterOf?_of_extension plain has numbers small digitless clean apart

/-- A counter padded behind, with wildcards on both sides and a digit next to it. -/
theorem counterOf?_formatName_padded :
    let s := parse "?.*%-4X7*.b?5*".toList
    s.counterStyle? = some ⟨4, false, true, .upperHex⟩ ∧
      (s.formatName "x.y z.txt".toList 2748 none).text = "x..y zABC 7.bt5xt".toList ∧
      s.counterOf? (s.formatName "x.y z.txt".toList 2748 none).text = some 2748 := by
  have style : (parse "?.*%-4X7*.b?5*".toList).counterStyle? = some ⟨4, false, true, .upperHex⟩ := by
    decide +kernel
  have digitless : ("x.y z.txt".toList.all fun c => !Radix.upperHex.isDigit c) = true := by
    decide +kernel
  refine ⟨style, by decide +kernel, counterOf?_formatName (.text _) style ?_ ?_ ?_ ?_⟩
  · intro c member
    simpa using List.all_eq_true.1 digitless c member
  · decide
  · decide +kernel
  · decide +kernel

end Spec

end Renumber.Pattern
