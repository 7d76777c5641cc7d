import Renumber.Proofs.Pattern.RoundTrip

/-!
# Patterns without wildcards

Every token of a pattern comes from characters of the pattern. So a pattern without the signs
for wildcards has no wildcards, and then what its tokens write is the same for all sources.
A character that is written comes from the source, from the pattern or from the counter.
-/

namespace Renumber.Pattern

variable {tokens : List Placed} {pattern source : List Char} {taken : Bool} {n m : Nat} {c : Char}

/-! ## What the characters of a pattern become -/

/-- The pieces of a pattern put together are the pattern. -/
theorem flatMap_span_pieces (pattern : List Char) :
    (pieces pattern).flatMap Piece.span = pattern := by
  fun_induction pieces pattern with
  | case1 => rfl
  | case2 rest run ih =>
      rw [List.flatMap_cons, ih]
      exact congrArg ('#' :: ·) List.takeWhile_append_dropWhile
  | case5 rest style used _ _ _ _ ih =>
      rw [List.flatMap_cons, ih]
      exact congrArg ('%' :: ·) (List.take_append_drop used rest)
  | case3 rest _ ih | case4 rest _ _ ih | case6 rest _ _ _ _ ih | case7 c rest _ _ _ _ ih =>
      rw [List.flatMap_cons, ih]
      rfl

theorem mem_literals {offset : Nat} {chars : List Char} {t : Placed} (member : t ∈ literals offset chars) :
    ∃ c ∈ chars, t.token = .literal c := by
  induction chars generalizing offset with
  | nil => cases member
  | cons c chars ih =>
      obtain rfl | later := List.mem_cons.1 member
      · exact ⟨c, List.mem_cons_self, rfl⟩
      · obtain ⟨c', inside, token⟩ := ih later
        exact ⟨c', List.mem_cons_of_mem _ inside, token⟩

/-- What the pattern has for a token to come from it. -/
def Token.In (pattern : List Char) : Token → Prop
  | literal c => c ∈ pattern
  | counter _ => True
  | anyRest => '*' ∈ pattern
  | anyOne => '?' ∈ pattern

theorem Token.In.mono {more : List Char} {t : Token} (inside : t.In pattern) (fewer : pattern ⊆ more) :
    t.In more := by
  cases t with
  | literal c => exact fewer inside
  | counter style => trivial
  | anyRest => exact fewer inside
  | anyOne => exact fewer inside

theorem in_of_mem_place {offset : Nat} {pieces : List Piece} {t : Placed}
    (member : t ∈ place taken offset pieces) : t.token.In (pieces.flatMap Piece.span) := by
  induction pieces generalizing taken offset with
  | nil => cases member
  | cons p pieces ih =>
      rw [List.flatMap_cons]
      have later : ∀ {taken next}, t ∈ place taken next pieces →
          t.token.In (p.span ++ pieces.flatMap Piece.span) :=
        fun member => (ih member).mono (List.subset_append_right _ _)
      cases p with
      | counter span style =>
          rw [place] at member
          split at member
          · obtain here | there := List.mem_append.1 member
            · obtain ⟨c, inside, token⟩ := mem_literals here
              rw [token]
              exact List.mem_append_left _ inside
            · exact later there
          · obtain rfl | there := List.mem_cons.1 member
            · trivial
            · exact later there
      | plain c =>
          obtain rfl | there := List.mem_cons.1 member
          · exact List.mem_cons_self
          · exact later there
      | star =>
          obtain rfl | there := List.mem_cons.1 member
          · exact List.mem_cons_self
          · exact later there
      | mark =>
          obtain rfl | there := List.mem_cons.1 member
          · exact List.mem_cons_self
          · exact later there

/-- Every token of a pattern comes from it. -/
theorem in_of_mem_parse {t : Placed} (member : t ∈ (Part.parse pattern taken).tokens) :
    t.token.In pattern := by
  have inside := in_of_mem_place member
  rwa [flatMap_span_pieces] at inside

/-! ## What tokens write -/

/-- None of the tokens is a wildcard. -/
def Fixed (tokens : List Placed) : Prop :=
  ∀ t ∈ tokens, t.token.isWildcard = false

theorem fixed_parse (no_star : '*' ∉ pattern) (no_mark : '?' ∉ pattern) :
    Fixed (Part.parse pattern taken).tokens := by
  intro t member
  have inside := in_of_mem_parse member
  cases kind : t.token with
  | literal c => rfl
  | counter style => rfl
  | anyRest =>
      rw [kind] at inside
      exact absurd inside no_star
  | anyOne =>
      rw [kind] at inside
      exact absurd inside no_mark

/-- Without wildcards the source makes no difference. -/
theorem Fixed.formatTokens_congr (fixed : Fixed tokens) (source source' : List Char) :
    (Part.formatTokens n tokens source).text = (Part.formatTokens n tokens source').text := by
  induction tokens with
  | nil => rfl
  | cons t rest ih =>
      obtain ⟨own, later⟩ := List.forall_mem_cons.1 fixed
      obtain ⟨offset, span, token⟩ := t
      cases token with
      | literal c => exact congrArg (c :: ·) (ih later)
      | counter style => exact congrArg (style.render n ++ ·) (ih later)
      | anyRest => cases own
      | anyOne => cases own

/-- A character that is written comes from the source, from the pattern or from the counter. -/
theorem exists_of_mem_formatTokens (written : c ∈ (Part.formatTokens n tokens source).text) :
    c ∈ source ∨ ∃ t ∈ tokens, t.token = .literal c ∨
      ∃ style, t.token = .counter style ∧ c ∈ style.render n := by
  induction tokens generalizing source with
  | nil => cases written
  | cons t rest ih =>
      have later : ∀ {source'}, source' ⊆ source → c ∈ (Part.formatTokens n rest source').text →
          c ∈ source ∨ ∃ t' ∈ t :: rest, t'.token = .literal c ∨
            ∃ style, t'.token = .counter style ∧ c ∈ style.render n := by
        intro source' fewer written
        obtain copied | ⟨t', member, own⟩ := ih written
        · exact .inl (fewer copied)
        · exact .inr ⟨t', List.mem_cons_of_mem _ member, own⟩
      obtain ⟨offset, span, token⟩ := t
      cases token with
      | literal c' =>
          obtain rfl | there := List.mem_cons.1 written
          · exact .inr ⟨_, List.mem_cons_self, .inl rfl⟩
          · exact later (List.Subset.refl source) there
      | counter style =>
          obtain here | there := List.mem_append.1 written
          · exact .inr ⟨_, List.mem_cons_self, .inr ⟨style, rfl, here⟩⟩
          · exact later (List.Subset.refl source) there
      | anyRest =>
          obtain here | there := List.mem_append.1 written
          · exact .inl here
          · exact later (List.nil_subset source) there
      | anyOne =>
          cases source with
          | nil => exact later (List.Subset.refl []) written
          | cons c' source =>
              obtain rfl | there := List.mem_cons.1 written
              · exact .inl List.mem_cons_self
              · exact later (List.subset_cons_self c' source) there

/-- A part that numbers writes something besides dots. -/
theorem Part.exists_ne_dot {p : Part} (numbers : p.hasCounter = true) (source : List Char) (n : Nat) :
    ∃ c ∈ (p.format source n).text, c ≠ '.' := by
  obtain ⟨t, member, counts⟩ := List.any_eq_true.1 numbers
  cases kind : t.token with
  | counter style =>
      obtain ⟨c, rest, written⟩ := List.exists_cons_of_ne_nil (style.render_ne_nil n)
      have inside : c ∈ style.render n := written ▸ List.mem_cons_self
      refine ⟨c, ?_, beq_eq_false_iff_ne.1 (style.dot_notMem_render n c inside)⟩
      obtain ⟨front, back, all⟩ := List.append_of_mem member
      rw [format, all, (formatTokens_append _ _ _).1]
      obtain ⟨offset, span, token⟩ := t
      cases kind
      exact List.mem_append_right _ (List.mem_append_left _ inside)
  | _ =>
      rw [kind] at counts
      cases counts

/-- A character that neither counters nor decorators are written with. -/
def IsOutside (c : Char) : Prop :=
  c ≠ ' ' ∧ (∀ r : Radix, r.isDigit c = false) ∧ c ∉ ['_', '(', ')']

theorem isOutside_dot : IsOutside '.' :=
  ⟨by decide, Radix.isDigit_dot, by decide⟩

theorem isOutside_slash : IsOutside '/' := by
  refine ⟨by decide, fun r => ?_, by decide⟩
  cases r <;> decide

theorem IsOutside.notMem_render (outside : IsOutside c) (style : CounterStyle) (n : Nat) :
    c ∉ style.render n :=
  CounterStyle.notMem_render outside.1 (outside.2.1 style.radix) n

theorem IsOutside.notMem_duplicateSuffix (outside : IsOutside c) (n : Nat) : c ∉ duplicateSuffix n := by
  obtain ⟨-, no_digit, no_mark⟩ := outside
  have no_digits : c ∉ Nat.toDigits 10 n := by
    intro member
    have digit := Text.isDigit_of_mem_toDigits (by decide) (by decide) member
    rw [show Text.isDigit 10 c = false from no_digit .decimal] at digit
    cases digit
  rw [duplicateSuffix]
  simp only [List.mem_cons, List.mem_append, List.not_mem_nil, or_false, not_or] at no_mark ⊢
  exact ⟨no_mark.1, no_mark.2.1, no_digits, no_mark.2.2⟩

end Renumber.Pattern
