import Mathlib.Data.List.Nodup
import Renumber.Proofs.Pattern.Once

/-!
# The cut that is found

A cut gives every token its stretch of the text. The cuts of a text have an order: where two
of them part, the one with the shorter stretch for `*`, or with more digits for a counter,
comes first. The search finds the first cut of all, and the search that solves every place
once finds it too, without ever leaving the text.
-/

namespace Renumber.Pattern

variable {tokens rest : List Token} {text s : List Char} {stretches others : List (List Char)}
  {found found' : Option Nat}

/-! ## Cuts and their order -/

/-- Stretches of a text, one for each token, each of which fits its token. What a counter can
be read from depends on what follows. `found` is the number read from the first counter. -/
inductive Cut : List Token → List (List Char) → Option Nat → Prop where
  | nil : Cut [] [] none
  | literal (c : Char) {rest : List Token} {stretches : List (List Char)} {found : Option Nat}
      (cut : Cut rest stretches found) : Cut (.literal c :: rest) ([c] :: stretches) found
  | anyOne (c : Char) {rest : List Token} {stretches : List (List Char)} {found : Option Nat}
      (cut : Cut rest stretches found) : Cut (.anyOne :: rest) ([c] :: stretches) found
  | anyRest (front : List Char) {rest : List Token} {stretches : List (List Char)}
      {found : Option Nat} (cut : Cut rest stretches found) :
      Cut (.anyRest :: rest) (front :: stretches) found
  | counter {style : CounterStyle} {value : Nat} {stretch : List Char} {rest : List Token}
      {stretches : List (List Char)} {found : Option Nat}
      (read : (value, stretch.length) ∈ style.readings (stretch ++ stretches.flatten))
      (cut : Cut rest stretches found) :
      Cut (.counter style :: rest) (stretch :: stretches) (some value)

/-- The order of cuts: the first stretches that differ decide, of which the shorter comes
first for `*`, and for a counter the one with more digits. -/
inductive Earlier : List Token → List (List Char) → List (List Char) → Prop where
  | anyRest {front front' : List Char} {rest : List Token} {stretches others : List (List Char)}
      (shorter : front.length < front'.length) :
      Earlier (.anyRest :: rest) (front :: stretches) (front' :: others)
  | counter {style : CounterStyle} {stretch stretch' : List Char} {rest : List Token}
      {stretches others : List (List Char)}
      (longer : stretch'.countP style.radix.isDigit < stretch.countP style.radix.isDigit) :
      Earlier (.counter style :: rest) (stretch :: stretches) (stretch' :: others)
  | later {t : Token} {stretch : List Char} {rest : List Token} {stretches others : List (List Char)}
      (earlier : Earlier rest stretches others) :
      Earlier (t :: rest) (stretch :: stretches) (stretch :: others)

/-- A cut of the text that comes before all others. -/
structure FirstCut (tokens : List Token) (text : List Char) (stretches : List (List Char))
    (found : Option Nat) : Prop where
  cut : Cut tokens stretches found
  whole : stretches.flatten = text
  first : ∀ others found', Cut tokens others found' → others.flatten = text →
    others = stretches ∨ Earlier tokens stretches others

theorem Earlier.asymm (earlier : Earlier tokens stretches others) :
    ¬ Earlier tokens others stretches := by
  induction earlier with
  | anyRest shorter =>
      intro back
      cases back with
      | anyRest longer => exact Nat.lt_asymm shorter longer
      | later _ => exact Nat.lt_irrefl _ shorter
  | counter longer =>
      intro back
      cases back with
      | counter shorter => exact Nat.lt_asymm longer shorter
      | later _ => exact Nat.lt_irrefl _ longer
  | later _ ih =>
      intro back
      cases back with
      | anyRest shorter => exact Nat.lt_irrefl _ shorter
      | counter longer => exact Nat.lt_irrefl _ longer
      | later back => exact ih back

/-- A text that is cut fits the tokens. -/
theorem Cut.fits (cut : Cut tokens stretches found) : Fits tokens stretches.flatten := by
  induction cut with
  | nil => exact .nil
  | literal c _ ih => exact .literal c ih
  | anyOne c _ ih => exact .anyOne c ih
  | anyRest front _ ih => exact .anyRest front ih
  | counter read _ ih =>
      refine .counter read ?_
      rwa [List.flatten_cons, List.drop_left]

/-! ## Readings in their order -/

/-- How many digits a reading from the front of a text takes. -/
def digitsRead (style : CounterStyle) (s : List Char) (reading : Nat × Nat) : Nat :=
  (s.take reading.2).countP style.radix.isDigit

/-- What a reading takes is in the text, and has the digits of its run. -/
theorem digitsRead_of_readingOf? {style : CounterStyle} {i : Nat} {reading : Nat × Nat}
    (inside : i < ((s.drop (style.leadingBlanks s)).takeWhile style.radix.isDigit).length)
    (found : style.readingOf? (style.leadingBlanks s) (s.drop (style.leadingBlanks s)) i =
      some reading) : reading.2 ≤ s.length ∧ digitsRead style s reading = i + 1 := by
  obtain ⟨lead, digits, trail, written, parted, long, run⟩ :=
    CounterStyle.exists_of_readingOf? inside found
  have taken : s.take reading.2 = lead ++ digits ++ trail := by
    rw [parted, long, List.take_left]
  have bare : ∀ blanks : List Char, (∀ c ∈ blanks, c = ' ') →
      blanks.countP style.radix.isDigit = 0 := by
    intro blanks each
    rw [List.countP_eq_zero]
    intro c member
    rw [each c member, Radix.isDigit_blank]
    exact Bool.false_ne_true
  constructor
  · rw [long, ← taken]
    exact List.length_take_le' _ _
  · rw [digitsRead, taken, List.countP_append, List.countP_append, bare lead written.lead_blank,
      bare trail written.trail_blank, List.countP_eq_length.2 written.each_digit, run]
    omega

theorem used_le_of_mem_readings {style : CounterStyle} {value used : Nat}
    (member : (value, used) ∈ style.readings s) : used ≤ s.length := by
  obtain ⟨i, inside, found⟩ := CounterStyle.exists_readingOf? member
  exact (digitsRead_of_readingOf? inside found).1

/-- Readings with more digits come first. -/
theorem pairwise_readings (style : CounterStyle) (s : List Char) :
    (style.readings s).Pairwise fun a b => digitsRead style s b < digitsRead style s a := by
  rw [CounterStyle.readings_eq rfl rfl, List.pairwise_filterMap, List.pairwise_reverse]
  refine List.Pairwise.imp_of_mem ?_ List.pairwise_lt_range
  intro i j before after less b read_b a read_a
  rw [(digitsRead_of_readingOf? (List.mem_range.1 after) read_b).2,
    (digitsRead_of_readingOf? (List.mem_range.1 before) read_a).2]
  exact Nat.succ_lt_succ less

/-- The ends of a text come in the order of their lengths. -/
theorem pairwise_suffixes (s : List Char) :
    (suffixes s).Pairwise fun a b => b.length < a.length := by
  induction s with
  | nil => exact List.pairwise_singleton _ _
  | cons c s ih =>
      refine List.pairwise_cons.2 ⟨fun t member => ?_, ih⟩
      exact Nat.lt_succ_of_le (mem_suffixes_iff.1 member).length_le

/-- In a list with falling keys, what is found first has the greatest key of all that could be
found. -/
theorem exists_of_findSome?_falling {α β : Type} {key : α → Nat} {f : α → Option β} {l : List α} {b : β}
    (falling : l.Pairwise fun a a' => key a' < key a) (found : l.findSome? f = some b) :
    ∃ a ∈ l, f a = some b ∧ ∀ a' ∈ l, a' = a ∨ key a' < key a ∨ f a' = none := by
  obtain ⟨before, a, after, rfl, own, failed⟩ := List.findSome?_eq_some_iff.1 found
  refine ⟨a, List.mem_append_right _ List.mem_cons_self, own, fun a' member => ?_⟩
  obtain early | late := List.mem_append.1 member
  · exact .inr (.inr (failed a' early))
  · obtain rfl | late := List.mem_cons.1 late
    · exact .inl rfl
    · exact .inr (.inl (List.rel_of_pairwise_cons (List.pairwise_append.1 falling).2.1 late))

theorem digitsRead_append (style : CounterStyle) (value : Nat) (stretch s : List Char) :
    digitsRead style (stretch ++ s) (value, stretch.length) = stretch.countP style.radix.isDigit := by
  rw [digitsRead, List.take_left]

/-- A reading is known by how many digits it takes. -/
theorem eq_of_digitsRead_eq {style : CounterStyle} {a b : Nat × Nat} (left : a ∈ style.readings s)
    (right : b ∈ style.readings s) (same : digitsRead style s a = digitsRead style s b) : a = b := by
  have apart : ((style.readings s).map (digitsRead style s)).Nodup := by
    rw [List.Nodup, List.pairwise_map]
    exact (pairwise_readings style s).imp fun less => (Nat.ne_of_lt less).symm
  exact List.inj_on_of_nodup_map apart left right same

/-- The number of a cut is known by its stretches. -/
theorem Cut.unique (cut : Cut tokens stretches found) (cut' : Cut tokens stretches found') :
    found = found' := by
  induction cut generalizing found' with
  | nil =>
      cases cut'
      rfl
  | literal c _ ih =>
      cases cut' with
      | literal _ cut' => exact ih cut'
  | anyOne c _ ih =>
      cases cut' with
      | anyOne _ cut' => exact ih cut'
  | anyRest front _ ih =>
      cases cut' with
      | anyRest _ cut' => exact ih cut'
  | counter read _ _ =>
      cases cut' with
      | counter read' _ => rw [(Prod.mk.inj (eq_of_digitsRead_eq read read' rfl)).1]

/-! ## The first cut -/

theorem FirstCut.nil : FirstCut [] [] [] none where
  cut := .nil
  whole := rfl
  first others found' cut _ := by
    cases cut
    exact .inl rfl

theorem FirstCut.literal (c : Char) (behind : FirstCut rest s stretches found) :
    FirstCut (.literal c :: rest) (c :: s) ([c] :: stretches) found where
  cut := .literal c behind.cut
  whole := congrArg (c :: ·) behind.whole
  first others found' cut whole := by
    cases cut with
    | literal _ cut =>
        exact (behind.first _ _ cut (List.cons.inj whole).2).imp (congrArg ([c] :: ·)) .later

theorem FirstCut.anyOne (c : Char) (behind : FirstCut rest s stretches found) :
    FirstCut (.anyOne :: rest) (c :: s) ([c] :: stretches) found where
  cut := .anyOne c behind.cut
  whole := congrArg (c :: ·) behind.whole
  first others found' cut whole := by
    cases cut with
    | anyOne c' cut =>
        obtain ⟨rfl, left⟩ := List.cons.inj whole
        exact (behind.first _ _ cut left).imp (congrArg ([c'] :: ·)) .later

/-- Behind the shortest stretch for a wildcard comes the first cut of what is left. -/
theorem FirstCut.anyRest (front : List Char) (behind : FirstCut rest s stretches found)
    (shortest : ∀ front' s', front' ++ s' = front ++ s → front'.length < front.length →
      ¬ Fits rest s') : FirstCut (.anyRest :: rest) (front ++ s) (front :: stretches) found where
  cut := .anyRest front behind.cut
  whole := congrArg (front ++ ·) behind.whole
  first others found' cut whole := by
    cases cut with
    | @anyRest front' _ others _ cut =>
        rw [List.flatten_cons] at whole
        obtain shorter | same | longer := Nat.lt_trichotomy front'.length front.length
        · exact absurd cut.fits (shortest _ _ whole shorter)
        · obtain ⟨rfl, left⟩ := List.append_inj whole same
          exact (behind.first _ _ cut left).imp (congrArg (front' :: ·)) .later
        · exact .inr (.anyRest longer)

/-- Behind the longest run of digits for a counter comes the first cut of what is left. -/
theorem FirstCut.counter {style : CounterStyle} {value : Nat} {stretch : List Char}
    (read : (value, stretch.length) ∈ style.readings (stretch ++ s))
    (behind : FirstCut rest s stretches found)
    (longest : ∀ reading ∈ style.readings (stretch ++ s),
      stretch.countP style.radix.isDigit < digitsRead style (stretch ++ s) reading →
      ¬ Fits rest ((stretch ++ s).drop reading.2)) :
    FirstCut (.counter style :: rest) (stretch ++ s) (stretch :: stretches) (some value) where
  cut := .counter (behind.whole ▸ read) behind.cut
  whole := congrArg (stretch ++ ·) behind.whole
  first others found' cut whole := by
    cases cut with
    | @counter _ value' stretch' _ others _ read' cut =>
        rw [List.flatten_cons] at whole
        have digits := digitsRead_append style value' stretch' others.flatten
        rw [whole] at read' digits
        obtain longer | same | shorter :=
          Nat.lt_trichotomy (stretch.countP style.radix.isDigit) (stretch'.countP style.radix.isDigit)
        · refine absurd ?_ (longest _ read' (digits ▸ longer))
          rw [← whole, List.drop_left]
          exact cut.fits
        · have own := digitsRead_append style value stretch s
          obtain ⟨rfl, long⟩ := Prod.mk.inj
            (eq_of_digitsRead_eq read' read ((digits.trans same.symm).trans own.symm))
          obtain ⟨rfl, left⟩ := List.append_inj whole long
          exact (behind.first _ _ cut left).imp (congrArg (stretch' :: ·)) .later
        · exact .inr (.counter shorter)

/-- When what is left behind a stretch of any length has a first cut, so has the whole. -/
theorem exists_firstCut_anyRest
    (behind : ∀ {s found}, search rest s = some found → ∃ stretches, FirstCut rest s stretches found)
    (matched : search (.anyRest :: rest) s = some found) :
    ∃ stretches, FirstCut (.anyRest :: rest) s stretches found := by
  obtain ⟨t, ending, own, others⟩ := exists_of_findSome?_falling (pairwise_suffixes s) matched
  obtain ⟨front, rfl⟩ := mem_suffixes_iff.1 ending
  obtain ⟨stretches, first⟩ := behind own
  refine ⟨front :: stretches, first.anyRest front fun front' s' same shorter fits => ?_⟩
  have long := congrArg List.length same
  rw [List.length_append, List.length_append] at long
  obtain rfl | less | failed := others s' (mem_suffixes_iff.2 ⟨front', same⟩)
  · omega
  · omega
  · have found := fits.isSome_search
    rw [failed] at found
    cases found

/-- When what is left behind a counter has a first cut, so has the whole. -/
theorem exists_firstCut_counter {style : CounterStyle}
    (behind : ∀ {s found}, search rest s = some found → ∃ stretches, FirstCut rest s stretches found)
    (matched : search (.counter style :: rest) s = some found) :
    ∃ stretches, FirstCut (.counter style :: rest) s stretches found := by
  obtain ⟨⟨value, used⟩, read, own, others⟩ :=
    exists_of_findSome?_falling (pairwise_readings style s) matched
  obtain ⟨after, later, rfl⟩ := Option.map_eq_some_iff.1 own
  obtain ⟨stretch, taken⟩ : ∃ stretch, s.take used = stretch := ⟨_, rfl⟩
  have long : stretch.length = used := by
    rw [← taken]
    exact List.length_take_of_le (used_le_of_mem_readings read)
  obtain ⟨left, dropped⟩ : ∃ left, s.drop used = left := ⟨_, rfl⟩
  have parted : s = stretch ++ left := by
    rw [← taken, ← dropped, List.take_append_drop]
  subst long parted
  rw [dropped] at later
  obtain ⟨stretches, first⟩ := behind later
  refine ⟨stretch :: stretches, first.counter read fun reading member longer fits => ?_⟩
  rw [← digitsRead_append style value stretch left] at longer
  obtain rfl | less | failed := others reading member
  · exact Nat.lt_irrefl _ longer
  · exact Nat.lt_asymm longer less
  · have found := fits.isSome_search
    rw [Option.map_eq_none_iff.1 failed] at found
    cases found

/-- What the search finds is the number of the first cut. -/
theorem exists_firstCut (matched : search tokens s = some found) :
    ∃ stretches, FirstCut tokens s stretches found := by
  induction tokens generalizing s found with
  | nil =>
      cases s with
      | nil =>
          cases matched
          exact ⟨[], .nil⟩
      | cons c s => cases matched
  | cons t rest ih =>
      cases t with
      | literal c =>
          cases s with
          | nil => cases matched
          | cons a s =>
              rw [search_literal] at matched
              split at matched
              next same =>
                subst same
                obtain ⟨stretches, behind⟩ := ih matched
                exact ⟨_, behind.literal a⟩
              next => cases matched
      | anyOne =>
          cases s with
          | nil => cases matched
          | cons a s =>
              obtain ⟨stretches, behind⟩ := ih matched
              exact ⟨_, behind.anyOne a⟩
      | anyRest => exact exists_firstCut_anyRest ih matched
      | counter style => exact exists_firstCut_counter ih matched

/-- The search finds the number of the first cut, and there is one for it to find if there is
any cut. -/
theorem search_eq_some_iff : search tokens s = some found ↔ ∃ stretches, FirstCut tokens s stretches found := by
  constructor
  · exact exists_firstCut
  · rintro ⟨stretches, first⟩
    have fits := first.whole ▸ first.cut.fits
    obtain ⟨found', matched⟩ := Option.isSome_iff_exists.1 fits.isSome_search
    obtain ⟨others, first'⟩ := exists_firstCut matched
    obtain same | earlier := first.first others found' first'.cut first'.whole
    · rw [matched, first'.cut.unique (same ▸ first.cut)]
    · obtain same | later := first'.first stretches found first.cut first.whole
      · rw [matched, first'.cut.unique (same ▸ first.cut)]
      · exact absurd later earlier.asymm

/-! ## Within the text -/

/-- With some tokens left the search comes to an offset of the text, which is what the tokens
before have taken in all. -/
inductive Reached (tokens : List Token) (text : List Char) : List Token → Nat → Prop where
  | start : Reached tokens text tokens 0
  | literal {c : Char} {rest : List Token} {offset : Nat}
      (before : Reached tokens text (.literal c :: rest) offset) (here : text[offset]? = some c) :
      Reached tokens text rest (offset + 1)
  | anyOne {c : Char} {rest : List Token} {offset : Nat}
      (before : Reached tokens text (.anyOne :: rest) offset) (here : text[offset]? = some c) :
      Reached tokens text rest (offset + 1)
  | anyRest {rest : List Token} {offset next : Nat}
      (before : Reached tokens text (.anyRest :: rest) offset) (above : offset ≤ next)
      (inside : next ≤ text.length) : Reached tokens text rest next
  | counter {style : CounterStyle} {value used : Nat} {rest : List Token} {offset : Nat}
      (before : Reached tokens text (.counter style :: rest) offset)
      (read : (value, used) ∈ style.readings (text.drop offset)) :
      Reached tokens text rest (offset + used)

/-- No offset lies beyond the text. -/
theorem Reached.offset_le {offset : Nat} (reached : Reached tokens text rest offset) :
    offset ≤ text.length := by
  induction reached with
  | start => exact Nat.zero_le _
  | literal _ here _ => exact (List.getElem?_eq_some_iff.1 here).1
  | anyOne _ here _ => exact (List.getElem?_eq_some_iff.1 here).1
  | anyRest _ _ inside _ => exact inside
  | counter _ read ih =>
      have used := used_le_of_mem_readings read
      rw [List.length_drop] at used
      omega

/-- The place that the search has for an offset. -/
def Reached.IsPlace (tokens : List Token) (text : List Char) (place : Nat × Nat) : Prop :=
  ∃ rest offset, Reached tokens text rest offset ∧ place.1 = rest.length ∧
    offset + place.2 = text.length

theorem Reached.isPlace {offset : Nat} (reached : Reached tokens text rest offset) :
    IsPlace tokens text (rest.length, (text.drop offset).length) := by
  refine ⟨rest, offset, reached, rfl, ?_⟩
  rw [List.length_drop, Nat.add_sub_cancel' reached.offset_le]

/-- The action writes outcomes down for the given places only. -/
def WritesAt {α : Type} (places : Nat × Nat → Prop) (find : StateM Known α) : Prop :=
  ∀ known : Known, (∀ place ∈ known, places place) → ∀ place ∈ (find.run known).2, places place

variable {α : Type} {places : Nat × Nat → Prop}

theorem writesAt_pure (a : α) : WritesAt places (pure a) :=
  fun _ inside => inside

theorem WritesAt.bind {β : Type} {find : StateM Known α} {next : α → StateM Known β}
    (first : WritesAt places find) (second : ∀ a, WritesAt places (next a)) :
    WritesAt places (find >>= next) :=
  fun known inside => second _ _ (first known inside)

theorem writesAt_once {left chars : Nat} {find : StateM Known Outcome} (own : places (left, chars))
    (finds : WritesAt places find) : WritesAt places (once left chars find) := by
  intro known inside
  rw [run_once]
  cases known[(left, chars)]? with
  | some outcome => exact inside
  | none =>
      intro place member
      obtain here | before := Std.TreeMap.mem_insert.1 member
      · exact comparePlaces_eq_iff.1 here ▸ own
      · exact finds known inside place before

theorem writesAt_firstMatch {find : α → StateM Known Outcome} {l : List α}
    (each : ∀ a ∈ l, WritesAt places (find a)) : WritesAt places (firstMatch find l) := by
  induction l with
  | nil => exact writesAt_pure none
  | cons a l ih =>
      obtain ⟨own, later⟩ := List.forall_mem_cons.1 each
      apply own.bind
      intro outcome
      cases outcome with
      | some counter => exact writesAt_pure (some counter)
      | none => exact ih later

/-- The search that solves every place once solves only places that are reached. -/
theorem Reached.writesAt_searchOnce {offset : Nat} (reached : Reached tokens text rest offset) :
    WritesAt (IsPlace tokens text) (searchOnce rest (text.drop offset)) := by
  induction rest generalizing offset with
  | nil => exact writesAt_once reached.isPlace (writesAt_pure _)
  | cons t rest ih =>
      have own := reached.isPlace
      have split : ∀ c s, text.drop offset = c :: s → text[offset]? = some c ∧ s = text.drop (offset + 1) := by
        intro c s split
        rw [← List.head?_drop, ← List.tail_drop, split]
        exact ⟨rfl, rfl⟩
      cases t with
      | literal c =>
          apply writesAt_once own
          cases left : text.drop offset with
          | nil => exact writesAt_pure none
          | cons a s =>
              obtain ⟨here, rfl⟩ := split a s left
              dsimp only
              split
              next same => exact ih (reached.literal (same ▸ here))
              next => exact writesAt_pure none
      | anyOne =>
          apply writesAt_once own
          cases left : text.drop offset with
          | nil => exact writesAt_pure none
          | cons a s =>
              obtain ⟨here, rfl⟩ := split a s left
              exact ih (reached.anyOne here)
      | anyRest =>
          apply writesAt_once own
          apply writesAt_firstMatch
          intro s member
          have ending := (mem_suffixes_iff.1 member).trans (List.drop_suffix offset text)
          have shorter := (mem_suffixes_iff.1 member).length_le
          rw [List.length_drop] at shorter
          rw [List.suffix_iff_eq_drop.1 ending]
          have inside := reached.offset_le
          exact ih (reached.anyRest (by omega) (Nat.sub_le _ _))
      | counter style =>
          apply writesAt_once own
          apply writesAt_firstMatch
          rintro ⟨value, used⟩ read
          refine WritesAt.bind ?_ fun outcome => writesAt_pure _
          rw [List.drop_drop]
          exact ih (reached.counter read)

/-- Solving every place once makes no difference to the search. It succeeds for exactly the
texts that can be cut into stretches that fit the tokens one by one, and the number that it
finds is that of the first cut. The places that are written down are reached by what the
tokens take of the text, and no offset that is reached lies beyond its end. -/
theorem matchTokens_finds_first (tokens : List Token) (text : List Char) :
    matchTokens tokens text = search tokens text ∧
    ((matchTokens tokens text).isSome = true ↔
      ∃ stretches found, Cut tokens stretches found ∧ stretches.flatten = text) ∧
    (∀ found, matchTokens tokens text = some found ↔
      ∃ stretches, FirstCut tokens text stretches found) ∧
    (∀ place ∈ ((searchOnce tokens text).run ∅).2, ∃ rest offset,
      Reached tokens text rest offset ∧ place.1 = rest.length ∧ offset + place.2 = text.length) ∧
    ∀ rest offset, Reached tokens text rest offset → offset ≤ text.length := by
  rw [matchTokens_eq_search]
  refine ⟨rfl, ⟨?_, ?_⟩, fun found => search_eq_some_iff, ?_, fun rest offset => Reached.offset_le⟩
  · intro matched
    obtain ⟨found, matched⟩ := Option.isSome_iff_exists.1 matched
    obtain ⟨stretches, first⟩ := exists_firstCut matched
    exact ⟨stretches, found, first.cut, first.whole⟩
  · rintro ⟨stretches, found, cut, rfl⟩
    exact cut.fits.isSome_search
  · have nothing : ∀ place ∈ (∅ : Known), Reached.IsPlace tokens text place :=
      fun place never => absurd never Std.TreeMap.not_mem_emptyc
    exact Reached.start.writesAt_searchOnce ∅ nothing

end Renumber.Pattern
