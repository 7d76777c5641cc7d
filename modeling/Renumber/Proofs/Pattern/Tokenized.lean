import Renumber.Proofs.Pattern.Grammar

/-!
# The tokens of a pattern

The tokens of a pattern lie end to end over it. Every place of the pattern is under one token,
and the grammar says which: under the counter, if the place belongs to the first stretch in the
shape of one and no part before has taken it, else under a wildcard or a character that stands
for itself. So a name and an extension never have more than one counter between them.
-/

namespace Renumber.Pattern

variable {tokens : List Placed} {pattern span : List Char} {style : CounterStyle} {taken : Bool}
  {offset i : Nat} {t u : Placed}

/-! ## End to end -/

/-- Tokens whose stretches follow each other from a place on, without gaps. -/
def Laid : Nat → List Placed → Prop
  | _, [] => True
  | offset, t :: rest => t.offset = offset ∧ t.span ≠ [] ∧ Laid (offset + t.span.length) rest

/-- The token lies over a place of the pattern. -/
def Placed.Covers (t : Placed) (i : Nat) : Prop :=
  t.offset ≤ i ∧ i < t.offset + t.span.length

theorem Laid.append {front back : List Placed} (laid : Laid offset front)
    (later : Laid (offset + (front.flatMap Placed.span).length) back) : Laid offset (front ++ back) := by
  induction front generalizing offset with
  | nil => exact later
  | cons t front ih =>
      obtain ⟨at_offset, some_char, rest⟩ := laid
      rw [List.flatMap_cons, List.length_append, ← Nat.add_assoc] at later
      exact ⟨at_offset, some_char, ih rest later⟩

/-- A token begins where those in front of it end. -/
theorem Laid.offset_eq {front back : List Placed} (laid : Laid offset (front ++ t :: back)) :
    t.offset = offset + (front.flatMap Placed.span).length := by
  induction front generalizing offset with
  | nil => exact laid.1
  | cons first front ih =>
      rw [ih laid.2.2, List.flatMap_cons, List.length_append, Nat.add_assoc]

theorem Laid.offset_le (laid : Laid offset tokens) (member : t ∈ tokens) : offset ≤ t.offset := by
  obtain ⟨front, back, rfl⟩ := List.append_of_mem member
  exact laid.offset_eq ▸ Nat.le_add_right _ _

theorem Laid.some_char (laid : Laid offset tokens) : ∀ t ∈ tokens, t.span ≠ [] := by
  induction tokens generalizing offset with
  | nil => exact List.forall_mem_nil _
  | cons t tokens ih => exact List.forall_mem_cons.2 ⟨laid.2.1, ih laid.2.2⟩

/-- No two tokens lie over the same place. -/
theorem Laid.unique (laid : Laid offset tokens) (member : t ∈ tokens) (member' : u ∈ tokens)
    (covers : t.Covers i) (covers' : u.Covers i) : t = u := by
  induction tokens generalizing offset with
  | nil => cases member
  | cons first tokens ih =>
      obtain ⟨at_offset, -, later⟩ := laid
      -- What comes later begins behind the first token.
      have behind : first.Covers i → ∀ t' ∈ tokens, ¬t'.Covers i := fun covers t' member covers' =>
        absurd (later.offset_le member) (by have := covers.2; have := covers'.1; omega)
      obtain rfl | inside := List.mem_cons.1 member <;> obtain rfl | inside' := List.mem_cons.1 member'
      · rfl
      · exact absurd covers' (behind covers u inside')
      · exact absurd covers (behind covers' t inside)
      · exact ih later inside inside'

/-- A token has the characters of the pattern that it lies over. -/
theorem Laid.getElem?_eq (laid : Laid 0 tokens) (member : t ∈ tokens) {k : Nat}
    (inside : k < t.span.length) :
    (tokens.flatMap Placed.span)[t.offset + k]? = t.span[k]? := by
  obtain ⟨front, back, rfl⟩ := List.append_of_mem member
  rw [laid.offset_eq, Nat.zero_add, List.flatMap_append, List.flatMap_cons,
    List.getElem?_append_right (Nat.le_add_right _ _), Nat.add_sub_cancel_left,
    List.getElem?_append_left inside]

/-- Every place is under a token. -/
theorem Laid.exists_covers (laid : Laid offset tokens)
    (inside : i < (tokens.flatMap Placed.span).length) :
    ∃ t ∈ tokens, t.Covers (offset + i) := by
  induction tokens generalizing offset i with
  | nil => cases inside
  | cons t tokens ih =>
      obtain ⟨at_offset, -, later⟩ := laid
      rw [List.flatMap_cons, List.length_append] at inside
      by_cases here : i < t.span.length
      · exact ⟨t, List.mem_cons_self, by omega, by omega⟩
      · obtain ⟨t', member, covers⟩ := ih later (i := i - t.span.length) (by omega)
        refine ⟨t', List.mem_cons_of_mem _ member, ?_⟩
        rwa [show offset + t.span.length + (i - t.span.length) = offset + i by omega] at covers

theorem flatMap_span_literals (chars : List Char) :
    (literals offset chars).flatMap Placed.span = chars := by
  induction chars generalizing offset with
  | nil => rfl
  | cons c chars ih => rw [literals, List.flatMap_cons, ih, List.singleton_append]

theorem laid_literals (chars : List Char) : Laid offset (literals offset chars) := by
  induction chars generalizing offset with
  | nil => trivial
  | cons c chars ih => exact ⟨rfl, List.cons_ne_nil _ _, ih⟩

/-! ## The tokens of a piece -/

/-- The piece is a counter. -/
def Piece.isCounter : Piece → Bool
  | counter _ _ => true
  | _ => false

theorem place_counter_taken (offset : Nat) (span : List Char) (style : CounterStyle) :
    place true offset [.counter span style] = literals offset span :=
  List.append_nil _

/-- A counter leaves none for what follows it. -/
theorem place_cons (p : Piece) (rest : List Piece) :
    place taken offset (p :: rest) =
      place taken offset [p] ++ place (taken || p.isCounter) (offset + p.span.length) rest := by
  cases p with
  | counter span style =>
      cases taken
      · rfl
      · rw [place_counter_taken]
        rfl
  | plain c | star | mark => cases taken <;> rfl

theorem mem_place {all : List Piece} : t ∈ place taken offset all ↔ ∃ front p back,
    all = front ++ p :: back ∧ t ∈ place (taken || front.any Piece.isCounter)
      (offset + (front.flatMap Piece.span).length) [p] := by
  induction all generalizing taken offset with
  | nil =>
      constructor
      · intro member
        cases member
      · rintro ⟨front, p, back, split, -⟩
        simp at split
  | cons p rest ih =>
      rw [place_cons, List.mem_append, ih]
      constructor
      · rintro (here | ⟨front, p', back, rfl, there⟩)
        · exact ⟨[], p, rest, rfl, by rwa [List.any_nil, Bool.or_false]⟩
        · refine ⟨p :: front, p', back, rfl, ?_⟩
          rwa [List.any_cons, ← Bool.or_assoc, List.flatMap_cons, List.length_append, ← Nat.add_assoc]
      · rintro ⟨front, p', back, split, there⟩
        obtain ⟨rfl, same⟩ | ⟨front, rfl, rfl⟩ := List.cons_eq_append_iff.1 split
        · obtain ⟨rfl, rfl⟩ := List.cons.inj same
          rw [List.any_nil, Bool.or_false] at there
          exact .inl there
        · rw [List.any_cons, ← Bool.or_assoc, List.flatMap_cons, List.length_append, ← Nat.add_assoc]
            at there
          exact .inr ⟨front, p', back, rfl, there⟩

theorem flatMap_span_place (all : List Piece) :
    (place taken offset all).flatMap Placed.span = all.flatMap Piece.span := by
  induction all generalizing taken offset with
  | nil => rfl
  | cons p rest ih =>
      rw [place_cons, List.flatMap_append, ih, List.flatMap_cons]
      congr 1
      cases p with
      | counter span style =>
          cases taken
          · exact List.append_nil span
          · rw [place_counter_taken, flatMap_span_literals]
            rfl
      | plain c | star | mark => rfl

theorem laid_place {all : List Piece} (some_char : ∀ p ∈ all, p.span ≠ []) :
    Laid offset (place taken offset all) := by
  induction all generalizing taken offset with
  | nil => trivial
  | cons p rest ih =>
      obtain ⟨own, later⟩ := List.forall_mem_cons.1 some_char
      have first : Laid offset (place taken offset [p]) := by
        cases p with
        | counter span style =>
            cases taken
            · exact ⟨rfl, own, trivial⟩
            · exact place_counter_taken offset span style ▸ laid_literals span
        | plain c | star | mark => exact ⟨rfl, own, trivial⟩
      rw [place_cons]
      refine first.append ?_
      rw [flatMap_span_place, List.flatMap_singleton]
      exact ih later

/-! ## The first counter -/

/-- At a place begins the first stretch of a pattern that has the shape of a counter. -/
def FirstCounter (pattern : List Char) (i : Nat) (span : List Char) (style : CounterStyle) : Prop :=
  CounterAt pattern i span style ∧ ∀ j < i, ∀ span style, ¬CounterAt pattern j span style

theorem span_ne_nil_of_mem_pieces {p : Piece} (member : p ∈ pieces pattern) : p.span ≠ [] := by
  cases p with
  | counter span style =>
      obtain ⟨front, back, split⟩ := List.append_of_mem member
      obtain ⟨_, _, -, -, shape⟩ := counterAt_iff.2 ⟨front, back, split, rfl⟩
      obtain ⟨c, more, rfl, -⟩ := shape.signs
      exact List.cons_ne_nil c more
  | plain c | star | mark => exact List.cons_ne_nil _ _

/-- The first stretch in the shape of a counter is the first counter among the pieces. -/
theorem firstCounter_iff : FirstCounter pattern i span style ↔ ∃ front back,
    pieces pattern = front ++ .counter span style :: back ∧ front.any Piece.isCounter = false ∧
      (front.flatMap Piece.span).length = i := by
  constructor
  · rintro ⟨counter, first⟩
    obtain ⟨front, back, split, long⟩ := counterAt_iff.1 counter
    refine ⟨front, back, split, List.any_eq_false.2 fun p member counts => ?_, long⟩
    have some_char := span_ne_nil_of_mem_pieces (split ▸ List.mem_append_left _ member)
    obtain ⟨ahead, behind, rfl⟩ := List.append_of_mem member
    cases p with
    | counter span' style' =>
        refine first (ahead.flatMap Piece.span).length ?_ span' style'
          (counterAt_iff.2 ⟨ahead, behind ++ .counter span style :: back, ?_, rfl⟩)
        · rw [← long, List.flatMap_append, List.flatMap_cons, List.length_append, List.length_append]
          have := List.length_pos_iff.2 some_char
          omega
        · rw [split, List.append_assoc, List.cons_append]
    | plain c | star | mark => cases counts
  · rintro ⟨front, back, split, none, rfl⟩
    refine ⟨counterAt_iff.2 ⟨front, back, split, rfl⟩, fun j less span' style' counter => ?_⟩
    obtain ⟨front', back', split', rfl⟩ := counterAt_iff.1 counter
    obtain ⟨more, rfl, -⟩ | ⟨more, rfl, same⟩ := List.append_eq_append_iff.1 (split.symm.trans split')
    · rw [List.flatMap_append, List.length_append] at less
      omega
    · cases more with
      | nil => simp at less
      | cons p more =>
          obtain ⟨rfl, -⟩ := List.cons.inj same
          simp [Piece.isCounter] at none

/-- What each kind of token has for its stretch of the pattern. -/
def Placed.Sound (t : Placed) : Prop :=
  match t.token with
  | .literal c => t.span = [c] ∧ c ≠ '*' ∧ c ≠ '?'
  | .anyRest => t.span = ['*']
  | .anyOne => t.span = ['?']
  | .counter _ => ∀ c ∈ t.span, c ≠ '*' ∧ c ≠ '?'

theorem sound_literals {chars : List Char} (plain : ∀ c ∈ chars, c ≠ '*' ∧ c ≠ '?') :
    ∀ t ∈ literals offset chars, t.Sound := by
  induction chars generalizing offset with
  | nil => exact List.forall_mem_nil _
  | cons c chars ih =>
      obtain ⟨own, later⟩ := List.forall_mem_cons.1 plain
      exact List.forall_mem_cons.2 ⟨⟨rfl, own⟩, ih later⟩

theorem Placed.Covers.single {c c' : Char} (covers : t.Covers i) (span : t.span = [c'])
    (there : t.span[i - t.offset]? = some c) : t.offset = i ∧ c' = c := by
  obtain ⟨behind, inside⟩ := covers
  rw [span, List.length_singleton] at inside
  obtain rfl : t.offset = i := by omega
  rw [span, Nat.sub_self] at there
  exact ⟨rfl, Option.some.inj there⟩

/-- The pattern's character at a place is in the token that lies over it. -/
theorem Laid.exists_over {c : Char} (laid : Laid 0 tokens)
    (there : (tokens.flatMap Placed.span)[i]? = some c) :
    ∃ t ∈ tokens, t.Covers i ∧ t.span[i - t.offset]? = some c := by
  obtain ⟨inside, -⟩ := List.getElem?_eq_some_iff.1 there
  obtain ⟨t, member, covers⟩ := laid.exists_covers inside
  rw [Nat.zero_add] at covers
  obtain ⟨behind, ends⟩ := covers
  have same := laid.getElem?_eq member (k := i - t.offset) (by omega)
  rw [Nat.add_sub_cancel' behind, there] at same
  exact ⟨t, member, ⟨behind, ends⟩, same.symm⟩

/-! ## Tokens of a pattern -/

theorem flatMap_span_tokenize (taken : Bool) (pattern : List Char) :
    (tokenize taken pattern).flatMap Placed.span = pattern :=
  (flatMap_span_place _).trans (flatMap_span_pieces pattern)

theorem laid_tokenize (taken : Bool) (pattern : List Char) : Laid 0 (tokenize taken pattern) :=
  laid_place fun _ => span_ne_nil_of_mem_pieces

theorem sound_tokenize (member : t ∈ tokenize taken pattern) : t.Sound := by
  obtain ⟨front, p, back, split, here⟩ := mem_place.1 member
  have inside : p ∈ pieces pattern := split ▸ List.mem_append_right _ List.mem_cons_self
  cases p with
  | plain c =>
      obtain rfl := List.mem_singleton.1 here
      exact ⟨rfl, plain_of_mem_pieces inside⟩
  | star | mark =>
      obtain rfl := List.mem_singleton.1 here
      exact rfl
  | counter span style =>
      obtain ⟨_, _, -, -, shape⟩ := counterAt_iff.2 ⟨front, back, split, rfl⟩
      obtain ⟨_, _, -, -, plain⟩ := shape.signs
      generalize (taken || front.any Piece.isCounter) = taken at here
      cases taken with
      | false =>
          obtain rfl := List.mem_singleton.1 here
          exact plain
      | true => exact sound_literals plain t (place_counter_taken _ _ _ ▸ here)

/-- A token has the character of the pattern at its place. -/
theorem getElem?_of_mem_tokenize {c : Char} {more : List Char} {token : Token}
    (member : ⟨i, c :: more, token⟩ ∈ tokenize taken pattern) : pattern[i]? = some c := by
  have same := (laid_tokenize taken pattern).getElem?_eq member (k := 0) (Nat.succ_pos _)
  rwa [flatMap_span_tokenize] at same

/-- What can lie over a place of a pattern. -/
theorem tokenize_over {c : Char} (taken : Bool) (there : pattern[i]? = some c) :
    (⟨i, [c], .literal c⟩ ∈ tokenize taken pattern ∧ c ≠ '*' ∧ c ≠ '?') ∨
      (c = '*' ∧ ⟨i, ['*'], .anyRest⟩ ∈ tokenize taken pattern) ∨
      (c = '?' ∧ ⟨i, ['?'], .anyOne⟩ ∈ tokenize taken pattern) ∨
      ∃ j span style, ⟨j, span, .counter style⟩ ∈ tokenize taken pattern ∧
        (j ≤ i ∧ i < j + span.length) ∧ c ≠ '*' ∧ c ≠ '?' := by
  rw [← flatMap_span_tokenize taken pattern] at there
  obtain ⟨⟨j, span, token⟩, member, covers, under⟩ := (laid_tokenize taken pattern).exists_over there
  have own := sound_tokenize member
  cases token with
  | literal c' =>
      obtain ⟨rfl, plain⟩ := own
      obtain ⟨rfl, rfl⟩ := covers.single rfl under
      exact .inl ⟨member, plain⟩
  | anyRest =>
      obtain rfl : span = ['*'] := own
      obtain ⟨rfl, rfl⟩ := covers.single rfl under
      exact .inr (.inl ⟨rfl, member⟩)
  | anyOne =>
      obtain rfl : span = ['?'] := own
      obtain ⟨rfl, rfl⟩ := covers.single rfl under
      exact .inr (.inr (.inl ⟨rfl, member⟩))
  | counter style =>
      exact .inr (.inr (.inr ⟨j, span, style, member, covers, own c (List.mem_of_getElem? under)⟩))

theorem star_mem_tokenize : ⟨i, span, .anyRest⟩ ∈ tokenize taken pattern ↔
    span = ['*'] ∧ pattern[i]? = some '*' := by
  constructor
  · intro member
    obtain rfl : span = ['*'] := sound_tokenize member
    exact ⟨rfl, getElem?_of_mem_tokenize member⟩
  · rintro ⟨rfl, there⟩
    obtain ⟨-, never, -⟩ | ⟨-, member⟩ | ⟨never, -⟩ | ⟨_, _, _, -, -, never, -⟩ :=
      tokenize_over taken there
    · exact absurd rfl never
    · exact member
    · cases never
    · exact absurd rfl never

theorem mark_mem_tokenize : ⟨i, span, .anyOne⟩ ∈ tokenize taken pattern ↔
    span = ['?'] ∧ pattern[i]? = some '?' := by
  constructor
  · intro member
    obtain rfl : span = ['?'] := sound_tokenize member
    exact ⟨rfl, getElem?_of_mem_tokenize member⟩
  · rintro ⟨rfl, there⟩
    obtain ⟨-, -, never⟩ | ⟨never, -⟩ | ⟨-, member⟩ | ⟨_, _, _, -, -, -, never⟩ :=
      tokenize_over taken there
    · exact absurd rfl never
    · cases never
    · exact member
    · exact absurd rfl never

/-- The first counter becomes a token if none was taken before. -/
theorem counter_mem_tokenize : ⟨i, span, .counter style⟩ ∈ tokenize taken pattern ↔
    taken = false ∧ FirstCounter pattern i span style := by
  rw [firstCounter_iff, tokenize, mem_place]
  constructor
  · rintro ⟨front, p, back, split, here⟩
    cases p with
    | counter span' style' =>
        cases free : taken || front.any Piece.isCounter with
        | false =>
            rw [free] at here
            obtain ⟨rfl, rfl, same⟩ := Placed.mk.inj (List.mem_singleton.1 here)
            obtain rfl := Token.counter.inj same
            obtain ⟨rfl, none⟩ := Bool.or_eq_false_iff.1 free
            exact ⟨rfl, front, back, split, none, (Nat.zero_add _).symm⟩
        | true =>
            rw [free, place_counter_taken] at here
            obtain ⟨c, -, token⟩ := mem_literals here
            cases token
    | plain c | star | mark => cases List.mem_singleton.1 here
  · rintro ⟨rfl, front, back, split, none, rfl⟩
    refine ⟨front, _, back, split, ?_⟩
    rw [none, Nat.zero_add]
    exact List.mem_singleton_self _

/-- What has the shape of a counter and is not the counter stands for itself. -/
theorem CounterAt.mem_or_literals (counter : CounterAt pattern i span style) (taken : Bool) :
    ⟨i, span, .counter style⟩ ∈ tokenize taken pattern ∨ literals i span ⊆ tokenize taken pattern := by
  obtain ⟨front, back, split, rfl⟩ := counterAt_iff.1 counter
  have here : ∀ {t}, t ∈ place (taken || front.any Piece.isCounter) (front.flatMap Piece.span).length
      [.counter span style] → t ∈ tokenize taken pattern := fun member =>
    mem_place.2 ⟨front, _, back, split, by rwa [Nat.zero_add]⟩
  generalize (taken || front.any Piece.isCounter) = free at here
  cases free with
  | false => exact .inl (here List.mem_cons_self)
  | true => exact .inr fun t member => here (place_counter_taken _ _ _ ▸ member)

/-- A character stands for itself unless it is a wildcard or in the counter. -/
theorem literal_mem_tokenize {c : Char} : ⟨i, span, .literal c⟩ ∈ tokenize taken pattern ↔
    span = [c] ∧ pattern[i]? = some c ∧ c ≠ '*' ∧ c ≠ '?' ∧ (taken = false →
      ∀ j whole style, FirstCounter pattern j whole style → ¬(j ≤ i ∧ i < j + whole.length)) := by
  constructor
  · intro member
    obtain ⟨rfl, no_star, no_mark⟩ := sound_tokenize member
    refine ⟨rfl, getElem?_of_mem_tokenize member, no_star, no_mark, ?_⟩
    intro free j whole style counter covers
    -- Otherwise both tokens would lie over the same place.
    have same := (laid_tokenize taken pattern).unique member (counter_mem_tokenize.2 ⟨free, counter⟩)
      (i := i) ⟨Nat.le_refl _, Nat.lt_succ_self _⟩ covers
    cases (Placed.mk.inj same).2.2
  · rintro ⟨rfl, there, no_star, no_mark, unread⟩
    obtain ⟨member, -⟩ | ⟨star, -⟩ | ⟨mark, -⟩ | ⟨j, span, style, counter, covers, -⟩ :=
      tokenize_over taken there
    · exact member
    · exact absurd star no_star
    · exact absurd mark no_mark
    · obtain ⟨free, counter⟩ := counter_mem_tokenize.1 counter
      exact absurd covers (unread free j span style counter)

/-- No percent sign stands in a counter behind the first place. -/
theorem CounterShape.percent_first {before behind : List Char}
    (shape : CounterShape before behind span style) {k : Nat} (there : span[k]? = some '%') : k = 0 := by
  cases k with
  | zero => rfl
  | succ k =>
      have member := List.mem_of_getElem? there
      cases shape with
      | hashes n _ _ => cases List.eq_of_mem_replicate member
      | percent viable =>
          rw [List.getElem?_cons_succ] at there
          exact absurd (by decide) (viable.no_sign '%' (List.mem_of_getElem? there))

theorem CounterAt.getElem?_eq (counter : CounterAt pattern offset span style) {k : Nat}
    (inside : k < span.length) : pattern[offset + k]? = span[k]? := by
  obtain ⟨before, behind, rfl, rfl, -⟩ := counter
  rw [List.append_assoc, List.getElem?_append_right (Nat.le_add_right _ _), Nat.add_sub_cancel_left,
    List.getElem?_append_left inside]

/-- A percent sign that begins no counter stands for itself. -/
theorem percent_mem_tokenize (there : pattern[i]? = some '%')
    (begins_none : ¬∃ span style, CounterAt pattern i span style) :
    ⟨i, ['%'], .literal '%'⟩ ∈ tokenize taken pattern := by
  refine literal_mem_tokenize.2 ⟨rfl, there, by decide, by decide, ?_⟩
  intro _ j whole style counter covers
  have same := counter.1.getElem?_eq (k := i - j) (by omega)
  rw [Nat.add_sub_cancel' covers.1, there] at same
  obtain ⟨_, _, -, -, shape⟩ := counter.1
  obtain rfl : i = j := by
    have := shape.percent_first same.symm
    omega
  exact begins_none ⟨whole, style, counter.1⟩

/-! ## The grammar -/

/-- Tokens as the grammar has them for a pattern, with or without a counter taken before. -/
structure Tokenization (taken : Bool) (pattern : List Char) (tokens : List Placed) : Prop where
  /-- The tokens together are the pattern. -/
  whole : tokens.flatMap Placed.span = pattern
  some_char : ∀ t ∈ tokens, t.span ≠ []
  /-- A token begins where those in front of it end. -/
  offset : ∀ front t back, tokens = front ++ t :: back → t.offset = (front.flatMap Placed.span).length
  star : ∀ i span, ⟨i, span, .anyRest⟩ ∈ tokens ↔ span = ['*'] ∧ pattern[i]? = some '*'
  mark : ∀ i span, ⟨i, span, .anyOne⟩ ∈ tokens ↔ span = ['?'] ∧ pattern[i]? = some '?'
  /-- Only the first stretch in the shape of a counter is one. -/
  counter : ∀ i span style, ⟨i, span, .counter style⟩ ∈ tokens ↔
    taken = false ∧ FirstCounter pattern i span style
  /-- All that is neither a wildcard nor in the counter stands for itself. -/
  literal : ∀ i span c, ⟨i, span, .literal c⟩ ∈ tokens ↔
    span = [c] ∧ pattern[i]? = some c ∧ c ≠ '*' ∧ c ≠ '?' ∧ (taken = false →
      ∀ j whole style, FirstCounter pattern j whole style → ¬(j ≤ i ∧ i < j + whole.length))
  other : ∀ i span style, CounterAt pattern i span style →
    ⟨i, span, .counter style⟩ ∈ tokens ∨ literals i span ⊆ tokens
  percent : ∀ i, pattern[i]? = some '%' → (¬∃ span style, CounterAt pattern i span style) →
    ⟨i, ['%'], .literal '%'⟩ ∈ tokens

theorem tokenization_parse (taken : Bool) (pattern : List Char) :
    Tokenization taken pattern (Part.parse pattern taken).tokens where
  whole := flatMap_span_tokenize taken pattern
  some_char := (laid_tokenize taken pattern).some_char
  offset := by
    intro front t back split
    have laid : Laid 0 (front ++ t :: back) := split ▸ laid_tokenize taken pattern
    rw [laid.offset_eq, Nat.zero_add]
  star := fun _ _ => star_mem_tokenize
  mark := fun _ _ => mark_mem_tokenize
  counter := fun _ _ _ => counter_mem_tokenize
  literal := fun _ _ _ => literal_mem_tokenize
  other := fun _ _ _ counter => counter.mem_or_literals taken
  percent := fun _ => percent_mem_tokenize

/-- The first percent sign begins no counter, the second does, and the hash signs come too late. -/
example : (tokenize false "%%-05d*##".toList).map Placed.token =
    [.literal '%', .counter ⟨5, false, true, .decimal⟩, .anyRest, .literal '#', .literal '#'] := by
  cbv

/-! ## Name and extension -/

theorem Plain.countP_eq (plain : Plain tokens) : tokens.countP (·.token.isCounter) = 0 :=
  List.countP_eq_zero.2 fun t member => by rw [plain t member]; exact Bool.false_ne_true

theorem Numbers.countP_eq (numbers : Numbers style tokens) : tokens.countP (·.token.isCounter) = 1 := by
  obtain ⟨front, here, back, rfl, kind, plain, plain'⟩ := numbers
  rw [List.countP_append, plain.countP_eq, List.countP_cons, plain'.countP_eq, kind]
  rfl

namespace Spec

/-- The tokens of the name with those of the extension, if that is formatted. -/
def allTokens (s : Spec) : List Placed :=
  s.name.tokens ++ (s.extension.part?.map Part.tokens).getD []

/-- An extension is cut up with regard to the counter of the name. -/
theorem tokenization_extension {name extension : List Char} {part : Part}
    (own : (ofParts name extension).extension.part? = some part) :
    Tokenization (ofParts name extension).name.hasCounter part.pattern part.tokens := by
  rw [ofParts] at own ⊢
  dsimp only at own ⊢
  split at own
  · obtain rfl := Option.some.inj own
    -- Here nothing can be taken.
    have same : ∀ taken, Part.parse ['*'] = Part.parse ['*'] taken := by
      intro taken
      cases taken <;> simp [Part.parse, tokenize, pieces, place]
    rw [same]
    exact tokenization_parse _ _
  · split at own
    · cases own
    · obtain rfl := Option.some.inj own
      exact tokenization_parse _ _

/-- The parts of a pattern have at most one counter between them, the extension only where the
name has none. -/
theorem counters_ofParts (name extension : List Char) :
    (ofParts name extension).allTokens.countP (·.token.isCounter) ≤ 1 ∧
      ∀ part, (ofParts name extension).extension.part? = some part → part.hasCounter = true →
        (ofParts name extension).name.hasCounter = false := by
  have apart : ∀ part, (ofParts name extension).extension.part? = some part → part.hasCounter = true →
      (ofParts name extension).name.hasCounter = false := by
    intro part own has
    rw [Bool.eq_false_iff]
    intro numbers
    rw [Part.hasCounter, ((exists_parse own).2 numbers).any_isCounter] at has
    cases has
  refine ⟨?_, apart⟩
  rw [allTokens, List.countP_append]
  obtain plain | ⟨style, numbers⟩ := plain_or_numbers_parse name false
  · rw [show (ofParts name extension).name.tokens.countP _ = 0 from plain.countP_eq, Nat.zero_add]
    cases own : (ofParts name extension).extension.part? with
    | none => exact Nat.zero_le 1
    | some part =>
        obtain ⟨⟨pattern, taken, rfl⟩, -⟩ := exists_parse own
        obtain plain | ⟨style, numbers⟩ := plain_or_numbers_parse pattern taken
        · exact plain.countP_eq.trans_le (Nat.zero_le 1)
        · exact numbers.countP_eq.le
  · rw [show (ofParts name extension).name.tokens.countP _ = 1 from numbers.countP_eq]
    cases own : (ofParts name extension).extension.part? with
    | none => exact Nat.le_refl 1
    | some part => exact ((exists_parse own).2 numbers.any_isCounter).countP_eq ▸ Nat.le_refl 1

end Spec

/-- Patterns are cut up by the grammar. -/
theorem tokens_by_grammar (taken : Bool) (pattern name extension : List Char) :
    Tokenization taken pattern (Part.parse pattern taken).tokens ∧
      (let s := Spec.ofParts name extension
      Tokenization false name s.name.tokens ∧
        (∀ part, s.extension.part? = some part →
          Tokenization s.name.hasCounter part.pattern part.tokens ∧
            (part.hasCounter = true → s.name.hasCounter = false)) ∧
        s.allTokens.countP (·.token.isCounter) ≤ 1) := by
  obtain ⟨one, apart⟩ := Spec.counters_ofParts name extension
  exact ⟨tokenization_parse taken pattern, tokenization_parse false name,
    fun part own => ⟨Spec.tokenization_extension own, apart part own⟩, one⟩

end Renumber.Pattern
