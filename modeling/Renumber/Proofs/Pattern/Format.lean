import Renumber.Pattern.Spec
import Renumber.Proofs.Pattern.Search

/-!
# What formatting writes

Tokens write their stretches one behind the other, each with the part of the source that
those in front have left. What is written without a counter and without a shortfall fits the
tokens, and characters that the source does not have are those that the tokens spell.
-/

namespace Renumber.Pattern

variable {tokens rest : List Placed} {source : List Char} {n : Nat}

/-- None of the tokens is a counter. -/
def Plain (tokens : List Placed) : Prop :=
  ∀ t ∈ tokens, t.token.isCounter = false

theorem Plain.map_token (plain : Plain tokens) : ∀ t ∈ tokens.map (·.token), t.isCounter = false := by
  intro t member
  obtain ⟨placed, inside, rfl⟩ := List.mem_map.1 member
  exact plain placed inside

namespace Part

/-- What tokens leave of the source. -/
def leftOver : List Placed → List Char → List Char
  | [], source => source
  | t :: rest, source =>
    match t.token with
    | .literal _ => leftOver rest source
    | .counter _ => leftOver rest source
    | .anyRest => leftOver rest []
    | .anyOne => leftOver rest source.tail

theorem leftOver_suffix (tokens : List Placed) (source : List Char) :
    leftOver tokens source <:+ source := by
  induction tokens generalizing source with
  | nil => exact List.suffix_rfl
  | cons t rest ih =>
      rw [leftOver]
      cases t.token with
      | literal c => exact ih source
      | counter style => exact ih source
      | anyRest => exact (ih []).trans (List.nil_suffix)
      | anyOne => exact (ih source.tail).trans (List.tail_suffix source)

theorem formatTokens_append (a b : List Placed) (source : List Char) :
    (formatTokens n (a ++ b) source).text =
        (formatTokens n a source).text ++ (formatTokens n b (leftOver a source)).text ∧
      (formatTokens n (a ++ b) source).warnings =
        (formatTokens n a source).warnings ++ (formatTokens n b (leftOver a source)).warnings := by
  induction a generalizing source with
  | nil => exact ⟨rfl, rfl⟩
  | cons t a ih =>
      obtain ⟨offset, span, token⟩ := t
      cases token with
      | literal c => exact ⟨congrArg (c :: ·) (ih source).1, (ih source).2⟩
      | counter style =>
          refine ⟨?_, (ih source).2⟩
          exact (congrArg (style.render n ++ ·) (ih source).1).trans (List.append_assoc _ _ _).symm
      | anyRest =>
          refine ⟨?_, (ih []).2⟩
          exact (congrArg (source ++ ·) (ih []).1).trans (List.append_assoc _ _ _).symm
      | anyOne =>
          cases source with
          | nil => exact ⟨(ih []).1, congrArg (_ :: ·) (ih []).2⟩
          | cons c source => exact ⟨congrArg (c :: ·) (ih source).1, (ih source).2⟩

/-- What tokens write behind their counter. -/
def behindCounter (n : Nat) : List Placed → List Char → List Char
  | [], _ => []
  | t :: rest, source =>
    match t.token with
    | .literal _ => behindCounter n rest source
    | .counter _ => (formatTokens n rest source).text
    | .anyRest => behindCounter n rest []
    | .anyOne => behindCounter n rest source.tail

theorem behindCounter_append {front back : List Placed} {here : Placed} {style : CounterStyle}
    (plain : Plain front) (kind : here.token = .counter style) :
    behindCounter n (front ++ here :: back) source =
      (formatTokens n back (leftOver front source)).text := by
  induction front generalizing source with
  | nil =>
      obtain ⟨offset, span, token⟩ := here
      cases kind
      rfl
  | cons t front ih =>
      obtain ⟨own, later⟩ := List.forall_mem_cons.1 plain
      obtain ⟨offset, span, token⟩ := t
      cases token with
      | literal c => exact ih later
      | counter style => cases own
      | anyRest => exact ih later
      | anyOne => exact ih later

/-- A counter stands between what the tokens around it write. -/
theorem text_eq_around {front back : List Placed} {here : Placed} {style : CounterStyle}
    (plain : Plain front) (kind : here.token = .counter style) :
    (formatTokens n (front ++ here :: back) source).text = (formatTokens n front source).text ++
      (style.render n ++ behindCounter n (front ++ here :: back) source) := by
  rw [behindCounter_append plain kind, (formatTokens_append _ _ _).1]
  obtain ⟨offset, span, token⟩ := here
  cases kind
  rfl

/-- Where nothing goes short, nothing does in front of the counter nor behind it. -/
theorem clean_around {front back : List Placed} {here : Placed} {style : CounterStyle}
    (kind : here.token = .counter style)
    (clean : (formatTokens n (front ++ here :: back) source).warnings = []) :
    (formatTokens n front source).warnings = [] ∧
      (formatTokens n back (leftOver front source)).warnings = [] := by
  rw [(formatTokens_append _ _ _).2, List.append_eq_nil_iff] at clean
  obtain ⟨offset, span, token⟩ := here
  cases kind
  exact clean

/-- What is written without a shortfall fits the tokens, whatever follows. -/
theorem fits_formatTokens {more : List Token} {s : List Char} (plain : Plain tokens)
    (clean : (formatTokens n tokens source).warnings = []) (fits : Fits more s) :
    Fits (tokens.map (·.token) ++ more) ((formatTokens n tokens source).text ++ s) := by
  induction tokens generalizing source with
  | nil => exact fits
  | cons t rest ih =>
      obtain ⟨own, later⟩ := List.forall_mem_cons.1 plain
      obtain ⟨offset, span, token⟩ := t
      cases token with
      | literal c => exact .literal c (ih later clean)
      | counter style => cases own
      | anyRest =>
          have behind := Fits.anyRest source (ih later clean)
          rw [← List.append_assoc] at behind
          exact behind
      | anyOne =>
          cases source with
          | nil => cases clean
          | cons c source => exact .anyOne c (ih later clean)

/-- What is written without a shortfall fits the tokens. -/
theorem fits_text (plain : Plain tokens) (clean : (formatTokens n tokens source).warnings = []) :
    Fits (tokens.map (·.token)) (formatTokens n tokens source).text := by
  have fits := fits_formatTokens plain clean .nil
  rwa [List.append_nil, List.append_nil] at fits

/-- Characters that neither the source nor a counter has are those that the tokens spell. -/
theorem countP_formatTokens (p : Char → Bool) (foreign : ∀ c ∈ source, p c = false)
    (apart : ∀ style, .counter style ∈ tokens.map (·.token) → ∀ c ∈ style.render n, p c = false) :
    (formatTokens n tokens source).text.countP p =
      (tokens.map (·.token)).countP (Token.spells p) := by
  induction tokens generalizing source with
  | nil => rfl
  | cons t rest ih =>
      have later : ∀ style, .counter style ∈ rest.map (·.token) → ∀ c ∈ style.render n, p c = false :=
        fun style inside => apart style (List.mem_cons_of_mem _ inside)
      have nothing : ∀ c ∈ ([] : List Char), p c = false := fun c never => absurd never List.not_mem_nil
      obtain ⟨offset, span, token⟩ := t
      rw [List.map_cons, List.countP_cons]
      cases token with
      | literal c =>
          show List.countP p (c :: (formatTokens n rest source).text) = _
          rw [List.countP_cons, ih foreign later]
          rfl
      | counter style =>
          show List.countP p (_ ++ _) = _
          rw [List.countP_append, ih foreign later, List.countP_eq_zero.2, Nat.zero_add]
          · rfl
          · intro c inside
            rw [apart style List.mem_cons_self c inside]
            exact Bool.false_ne_true
      | anyRest =>
          show List.countP p (_ ++ _) = _
          rw [List.countP_append, ih nothing later, List.countP_eq_zero.2, Nat.zero_add]
          · rfl
          · intro c inside
            rw [foreign c inside]
            exact Bool.false_ne_true
      | anyOne =>
          cases source with
          | nil => exact ih nothing later
          | cons c source =>
              obtain ⟨own, foreign⟩ := List.forall_mem_cons.1 foreign
              show List.countP p (c :: (formatTokens n rest source).text) = _
              rw [List.countP_cons, ih foreign later, own]
              rfl

end Part

/-! ## The counter among the tokens -/

theorem plain_literals (offset : Nat) (chars : List Char) : Plain (literals offset chars) := by
  induction chars generalizing offset with
  | nil => exact fun t never => absurd never List.not_mem_nil
  | cons c chars ih => exact List.forall_mem_cons.2 ⟨rfl, ih (offset + 1)⟩

/-- Behind a counter no other one counts. -/
theorem plain_place (offset : Nat) (pieces : List Piece) : Plain (place true offset pieces) := by
  induction pieces generalizing offset with
  | nil => exact fun t never => absurd never List.not_mem_nil
  | cons p pieces ih =>
      cases p with
      | counter span style => exact List.forall_mem_append.2 ⟨plain_literals offset span, ih _⟩
      | plain c => exact List.forall_mem_cons.2 ⟨rfl, ih _⟩
      | star => exact List.forall_mem_cons.2 ⟨rfl, ih _⟩
      | mark => exact List.forall_mem_cons.2 ⟨rfl, ih _⟩

/-- One of the tokens is a counter, and no other one. -/
def Numbers (style : CounterStyle) (tokens : List Placed) : Prop :=
  ∃ front here behind, tokens = front ++ here :: behind ∧ here.token = .counter style ∧
    Plain front ∧ Plain behind

theorem Numbers.cons {style : CounterStyle} {t : Placed} (numbers : Numbers style rest)
    (own : t.token.isCounter = false) : Numbers style (t :: rest) := by
  obtain ⟨front, here, behind, rfl, kind, before, after⟩ := numbers
  exact ⟨t :: front, here, behind, rfl, kind, List.forall_mem_cons.2 ⟨own, before⟩, after⟩

/-- The tokens of a part have one counter at most. -/
theorem plain_or_numbers (offset : Nat) (pieces : List Piece) :
    Plain (place false offset pieces) ∨ ∃ style, Numbers style (place false offset pieces) := by
  induction pieces generalizing offset with
  | nil => exact .inl fun t never => absurd never List.not_mem_nil
  | cons p pieces ih =>
      have one : ∀ t : Placed, ∀ next, t.token.isCounter = false →
          Plain (t :: place false next pieces) ∨
            ∃ style, Numbers style (t :: place false next pieces) := by
        intro t next own
        obtain plain | ⟨style, numbers⟩ := ih next
        · exact .inl (List.forall_mem_cons.2 ⟨own, plain⟩)
        · exact .inr ⟨style, numbers.cons own⟩
      cases p with
      | counter span style =>
          refine .inr ⟨style, [], _, _, rfl, rfl, ?_, plain_place _ pieces⟩
          exact fun t never => absurd never List.not_mem_nil
      | plain c => exact one _ _ rfl
      | star => exact one _ _ rfl
      | mark => exact one _ _ rfl

end Renumber.Pattern
