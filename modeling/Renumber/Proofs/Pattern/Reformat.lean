import Renumber.Proofs.Pattern.Fixed

/-!
# Formatting a formatted name

Without wildcards a pattern takes nothing from the source but the extension that it keeps.
It keeps one only where it has no dot itself, so the names that it writes have that extension
again, and behind the last dot. Hence to format a name that was formatted writes what would
have been written for the first one.
-/

namespace Renumber.Pattern

variable {pattern : List Char} {taken : Bool} {n m : Nat} {c : Char}

/-! ## Where a name is split -/

theorem splitName_of_notMem {name : List Char} (no_dot : '.' ∉ name) : splitName name = (name, []) := by
  rw [splitName, splitLastDot?_of_notMem no_dot]

theorem splitName_append {stem extension : List Char} (some_char : stem ≠ []) (no_dot : '.' ∉ extension) :
    splitName (stem ++ '.' :: extension) = (stem, extension) := by
  rw [splitName, splitLastDot?_append no_dot]
  exact if_neg (mt List.isEmpty_iff.1 some_char)

namespace Spec

variable {s : Spec} {name : List Char} {d e : Option Nat}

/-! ## Names -/

/-- The decorator, if there is one. -/
def decorator (d : Option Nat) : List Char :=
  (d.map duplicateSuffix).getD []

/-- An extension behind its dot, unless it is empty. -/
def dotted (extension : List Char) : List Char :=
  if extension.isEmpty then [] else '.' :: extension

/-- The extension that is written. -/
def extensionText (s : Spec) (extension : List Char) (n : Nat) : List Char :=
  match s.extension.part? with
  | none => []
  | some part => (part.format extension n).text

theorem formatName_text (s : Spec) (name : List Char) (n : Nat) (d : Option Nat) :
    (s.formatName name n d).text = (s.name.format (splitName name).1 n).text ++ decorator d ++
      dotted (s.extensionText (splitName name).2 n) := by
  rw [formatName, extensionText]
  cases splitName name with
  | mk stem extension =>
      cases s.extension.part? with
      | none => exact (List.append_nil _).symm
      | some part =>
          show (if _ then _ else _) = _
          rw [dotted]
          split
          · exact (List.append_nil _).symm
          · rfl

theorem mem_dotted {extension : List Char} (written : c ∈ dotted extension) :
    c = '.' ∨ c ∈ extension := by
  rw [dotted] at written
  split at written
  · cases written
  · exact List.mem_cons.1 written

theorem splitName_dotted {stem extension : List Char} (some_char : stem ≠ []) (no_dot : '.' ∉ stem)
    (no_dot' : '.' ∉ extension) : splitName (stem ++ dotted extension) = (stem, extension) := by
  rw [dotted]
  split
  next none =>
    rw [List.append_nil, List.isEmpty_iff.1 none]
    exact splitName_of_notMem no_dot
  next => exact splitName_append some_char no_dot'

/-- What a text is read as: a part for the name and the extension of the source, or two parts
with a dot between them. -/
theorem parse_cases (pattern : List Char) :
    '.' ∉ pattern ∧ parse pattern = ⟨Part.parse pattern, .keep⟩ ∨
      ∃ name extension, pattern = name ++ '.' :: extension ∧ (parse pattern).name = Part.parse name ∧
        ((parse pattern).extension = .drop ∨
          (parse pattern).extension = .format (Part.parse extension (Part.parse name).hasCounter)) := by
  obtain ⟨no_dot, none⟩ | ⟨name, extension, all, -, split⟩ := splitLastDot?_cases pattern
  · refine .inl ⟨no_dot, ?_⟩
    rw [parse, none]
    rfl
  · refine .inr ⟨name, extension, all, ?_⟩
    rw [parse, split]
    dsimp only
    refine ⟨rfl, ?_⟩
    by_cases empty : extension = []
    · rw [if_pos empty]
      exact .inl rfl
    · rw [if_neg empty, ofParts]
      dsimp only
      rw [if_neg empty]
      split
      · exact .inl rfl
      · exact .inr rfl

/-- The characters that the parts of a pattern spell are its own. -/
theorem mem_of_literal {t : Placed} (spelled : t.token = .literal c) :
    (t ∈ (parse pattern).name.tokens → c ∈ pattern) ∧
      ∀ part, (parse pattern).extension.part? = some part → t ∈ part.tokens → c ∈ pattern := by
  have own : ∀ {p taken}, t ∈ (Part.parse p taken).tokens → c ∈ p := by
    intro p taken member
    have inside := in_of_mem_parse member
    rwa [spelled] at inside
  obtain ⟨-, shape⟩ | ⟨name, extension, all, is_name, rule⟩ := parse_cases pattern
  · rw [shape]
    refine ⟨own, fun part has member => ?_⟩
    obtain rfl := Option.some.inj has
    rw [tokens_star, List.mem_singleton] at member
    rw [member] at spelled
    cases spelled
  · rw [is_name]
    constructor
    · intro member
      rw [all]
      exact List.mem_append_left _ (own member)
    · intro part has member
      obtain dropped | formats := rule
      · rw [dropped] at has
        cases has
      · rw [formats] at has
        obtain rfl := Option.some.inj has
        rw [all]
        exact List.mem_append_right _ (List.mem_cons_of_mem _ (own member))

/-- A character that no counter and no decorator is written with comes from the pattern or from the
source, unless it is the dot of the extension. -/
theorem mem_of_mem_formatName (outside : IsOutside c)
    (written : c ∈ ((parse pattern).formatName name n d).text) : c = '.' ∨ c ∈ pattern ∨ c ∈ name := by
  have origin : ∀ {p : Part} {source}, (∀ t ∈ p.tokens, t.token = .literal c → c ∈ pattern) →
      (∀ c ∈ source, c ∈ name) → c ∈ (p.format source n).text → c = '.' ∨ c ∈ pattern ∨ c ∈ name := by
    intro p source spelled copied written
    obtain there | ⟨t, member, own | ⟨style, -, counted⟩⟩ := exists_of_mem_formatTokens written
    · exact .inr (.inr (copied c there))
    · exact .inr (.inl (spelled t member own))
    · exact absurd counted (outside.notMem_render style n)
  rw [formatName_text, List.mem_append, List.mem_append] at written
  obtain (in_name | decorates) | behind := written
  · exact origin (fun t member own => (mem_of_literal own).1 member) (splitName_spec name).1 in_name
  · rw [decorator] at decorates
    cases d with
    | none => cases decorates
    | some k => exact absurd decorates (outside.notMem_duplicateSuffix k)
  · obtain dot | behind := mem_dotted behind
    · exact .inl dot
    · rw [extensionText] at behind
      split at behind
      · cases behind
      · next part has =>
        exact origin (fun t member own => (mem_of_literal own).2 part has member)
          (fun c member => ((splitName_spec name).2 c member).1) behind

theorem hasWildcard_parse (no_star : '*' ∉ pattern) (no_mark : '?' ∉ pattern) :
    (Part.parse pattern taken).hasWildcard = false := by
  rw [Part.hasWildcard, List.any_eq_false]
  intro t member
  rw [fixed_parse no_star no_mark t member]
  exact Bool.false_ne_true

/-- A usable pattern without wildcards numbers the name or the extension. -/
theorem numbers_of_isUsable (no_star : '*' ∉ pattern) (no_mark : '?' ∉ pattern)
    (usable : (parse pattern).isUsable = true) :
    (parse pattern).name.hasCounter = true ∨
      ∃ part, (parse pattern).extension = .format part ∧ part.hasCounter = true := by
  rw [isUsable] at usable
  obtain ⟨-, shape⟩ | ⟨name, extension, all, is_name, rule⟩ := parse_cases pattern
  · rw [shape] at usable ⊢
    rw [hasWildcard_parse no_star no_mark] at usable
    left
    simpa using usable
  · rw [all, List.mem_append, List.mem_cons, not_or, not_or] at no_star no_mark
    rw [is_name, hasWildcard_parse no_star.1 no_mark.1] at usable
    obtain dropped | formats := rule
    · rw [dropped] at usable
      left
      rw [is_name]
      simpa using usable
    · rw [formats] at usable
      dsimp only at usable
      rw [hasWildcard_parse no_star.2.2 no_mark.2.2] at usable
      rw [is_name, formats]
      simpa using usable

/-- A usable pattern without wildcards writes something besides dots. -/
theorem exists_ne_dot (no_star : '*' ∉ pattern) (no_mark : '?' ∉ pattern)
    (usable : (parse pattern).isUsable = true) (name : List Char) (n : Nat) (d : Option Nat) :
    ∃ c ∈ ((parse pattern).formatName name n d).text, c ≠ '.' := by
  rw [formatName_text]
  obtain numbers | ⟨part, formats, numbers⟩ := numbers_of_isUsable no_star no_mark usable
  · obtain ⟨c, written, no_dot⟩ := Part.exists_ne_dot numbers (splitName name).1 n
    exact ⟨c, List.mem_append_left _ (List.mem_append_left _ written), no_dot⟩
  · obtain ⟨c, written, no_dot⟩ := Part.exists_ne_dot numbers (splitName name).2 n
    refine ⟨c, List.mem_append_right _ ?_, no_dot⟩
    have text : (parse pattern).extensionText (splitName name).2 n = (part.format (splitName name).2 n).text := by
      rw [extensionText, formats]
      rfl
    rw [text, dotted]
    split
    · next none =>
      rw [List.isEmpty_iff.1 none] at written
      cases written
    · exact List.mem_cons_of_mem _ written

/-- A pattern without a dot keeps the extension. -/
theorem extensionText_of_notMem (no_dot : '.' ∉ pattern) (extension : List Char) (n : Nat) :
    (parse pattern).extensionText extension n = extension := by
  obtain ⟨-, shape⟩ | ⟨_, _, all, -⟩ := parse_cases pattern
  · rw [shape, extensionText]
    show (Part.formatTokens n (Part.parse ['*']).tokens extension).text = extension
    rw [tokens_star]
    exact List.append_nil extension
  · exact absurd (all ▸ List.mem_append_right _ List.mem_cons_self) no_dot

theorem fixed_name (no_star : '*' ∉ pattern) (no_mark : '?' ∉ pattern) :
    Fixed (parse pattern).name.tokens := by
  obtain ⟨-, shape⟩ | ⟨name, extension, all, is_name, -⟩ := parse_cases pattern
  · rw [shape]
    exact fixed_parse no_star no_mark
  · rw [all, List.mem_append, not_or] at no_star no_mark
    rw [is_name]
    exact fixed_parse no_star.1 no_mark.1

/-- A pattern with a dot writes an extension of its own, or none. -/
theorem extensionText_congr (no_star : '*' ∉ pattern) (no_mark : '?' ∉ pattern) (dot : '.' ∈ pattern)
    (extension extension' : List Char) (n : Nat) :
    (parse pattern).extensionText extension n = (parse pattern).extensionText extension' n := by
  obtain ⟨no_dot, -⟩ | ⟨name, own, all, -, dropped | formats⟩ := parse_cases pattern
  · exact absurd dot no_dot
  · rw [extensionText, extensionText, dropped]
    rfl
  · rw [all, List.mem_append, List.mem_cons, not_or, not_or] at no_star no_mark
    rw [extensionText, extensionText, formats]
    exact (fixed_parse no_star.2.2 no_mark.2.2).formatTokens_congr _ _

/-- A name that was formatted with the source's extension is split before that extension. -/
theorem splitName_formatName (no_star : '*' ∉ pattern) (no_mark : '?' ∉ pattern) (no_dot : '.' ∉ pattern)
    (usable : (parse pattern).isUsable = true) (name : List Char) (n : Nat) (d : Option Nat) :
    splitName ((parse pattern).formatName name n d).text =
      (((parse pattern).name.format (splitName name).1 n).text ++ decorator d, (splitName name).2) := by
  have fixed := fixed_name no_star no_mark
  rw [formatName_text, extensionText_of_notMem no_dot]
  refine splitName_dotted ?_ ?_ fun member => ((splitName_spec name).2 _ member).2 rfl
  · obtain numbers | ⟨part, formats, -⟩ := numbers_of_isUsable no_star no_mark usable
    · obtain ⟨c, written, -⟩ := Part.exists_ne_dot numbers (splitName name).1 n
      exact List.append_ne_nil_of_left_ne_nil (List.ne_nil_of_mem written) _
    · obtain ⟨-, shape⟩ | ⟨_, _, all, -⟩ := parse_cases pattern
      · rw [shape] at formats
        cases formats
      · exact absurd (all ▸ List.mem_append_right _ List.mem_cons_self) no_dot
  · rw [List.mem_append, not_or, Part.format, fixed.formatTokens_congr (splitName name).1 []]
    constructor
    · intro written
      obtain none | ⟨t, member, own | ⟨style, -, counted⟩⟩ := exists_of_mem_formatTokens written
      · cases none
      · exact no_dot ((mem_of_literal own).1 member)
      · exact isOutside_dot.notMem_render style n counted
    · rw [decorator]
      cases d with
      | none => exact List.not_mem_nil
      | some k => exact isOutside_dot.notMem_duplicateSuffix k

/-- Without wildcards a formatted name is formatted again as the name that it was made from. -/
theorem formatName_formatName (no_star : '*' ∉ pattern) (no_mark : '?' ∉ pattern)
    (usable : (parse pattern).isUsable = true) (name : List Char) (n m : Nat) (d e : Option Nat) :
    ((parse pattern).formatName ((parse pattern).formatName name n d).text m e).text =
      ((parse pattern).formatName name m e).text := by
  have fixed := fixed_name no_star no_mark
  have one_extension : (parse pattern).extensionText
      (splitName ((parse pattern).formatName name n d).text).2 m =
        (parse pattern).extensionText (splitName name).2 m := by
    by_cases dot : '.' ∈ pattern
    · exact extensionText_congr no_star no_mark dot _ _ m
    · rw [splitName_formatName no_star no_mark dot usable]
  rw [formatName_text _ _ m e, formatName_text _ name m e, one_extension]
  exact congrArg (· ++ decorator e ++ _) (fixed.formatTokens_congr _ _)

end Spec

end Renumber.Pattern
