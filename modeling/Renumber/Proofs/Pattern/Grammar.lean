import Renumber.Proofs.Pattern.Fixed

/-!
# The grammar of patterns

Which stretches of a pattern have the shape of a counter is told by what stands in them and
next to them, without reading the pattern from its front. The tokens cut the pattern up without
loss: the first such stretch is the counter, stars and question marks are wildcards, and all
other characters stand for themselves.
-/

namespace Renumber.Pattern

variable {pattern before behind ahead span body rest s : List Char} {style : CounterStyle}
  {taken : Bool} {i : Nat}

/-! ## The shape of counters -/

/-- The letters that end a percent counter. -/
def counterLetters : List (Char × Radix) :=
  [('d', .decimal), ('i', .decimal), ('u', .decimal), ('o', .octal), ('x', .lowerHex),
    ('X', .upperHex)]

theorem radix?_eq_some_iff {c : Char} {radix : Radix} :
    radix? c = some radix ↔ (c, radix) ∈ counterLetters := by
  constructor
  · intro named
    unfold radix? at named
    split at named <;> cases named <;> decide
  · intro member
    simp only [counterLetters, List.mem_cons, Prod.mk.injEq, List.not_mem_nil, or_false] at member
    obtain ⟨rfl, rfl⟩ | ⟨rfl, rfl⟩ | ⟨rfl, rfl⟩ | ⟨rfl, rfl⟩ | ⟨rfl, rfl⟩ | ⟨rfl, rfl⟩ := member <;> rfl

/-- The style that flags, a width and a letter ask for. A zero in front of the width is a flag. -/
def percentStyle (flags width : List Char) (radix : Radix) : CounterStyle where
  width := Radix.decimal.value width
  zeroPad := ('0' ∈ flags ∨ width.head? = some '0') ∧ '-' ∉ flags
  leftJustify := '-' ∈ flags
  radix := radix

/-- What follows the sign of a percent counter: a run of flags, a width that is not too great
or none, and a letter. -/
inductive PercentBody : List Char → CounterStyle → Prop where
  | mk {flags width : List Char} {letter : Char} {radix : Radix}
      (flag : ∀ c ∈ flags, c = '-' ∨ c = '0') (digit : ∀ c ∈ width, c.isDigit = true)
      (narrow : Radix.decimal.value width ≤ maxWidth) (named : (letter, radix) ∈ counterLetters) :
      PercentBody (flags ++ width ++ [letter]) (percentStyle flags width radix)

/-- The stretch between two others has the shape of a counter: it is a run of hash signs that is
not part of a longer one, or a percent sign with all that makes it a counter. -/
inductive CounterShape (before behind : List Char) : List Char → CounterStyle → Prop where
  | hashes (n : Nat) (first : before.getLast? ≠ some '#') (last : behind.head? ≠ some '#') :
      CounterShape before behind (List.replicate (n + 1) '#') (.hashes (n + 1))
  | percent {body : List Char} {style : CounterStyle} (viable : PercentBody body style) :
      CounterShape before behind ('%' :: body) style

/-- At an offset of the pattern stands a stretch in the shape of a counter. -/
def CounterAt (pattern : List Char) (offset : Nat) (span : List Char) (style : CounterStyle) : Prop :=
  ∃ before behind, pattern = before ++ span ++ behind ∧ before.length = offset ∧
    CounterShape before behind span style

theorem head?_dropWhile_run (p : Char → Bool) (s : List Char) :
    ∀ c ∈ (s.dropWhile p).head?, p c = false := by
  intro c member
  have stopped := List.head?_dropWhile_not p s
  rw [Option.mem_def.1 member] at stopped
  exact stopped

theorem isFlag_iff {c : Char} : isFlag c = true ↔ c = '-' ∨ c = '0' := by
  rw [isFlag, Bool.or_eq_true, beq_iff_eq, beq_iff_eq]

/-- A width without zeros in front begins behind all flags. -/
theorem isFlag_of_digit {c : Char} (digit : c.isDigit = true) (nonzero : c ≠ '0') :
    isFlag c = false := by
  rw [Bool.eq_false_iff]
  intro flag
  obtain rfl | zero := isFlag_iff.1 flag
  · cases digit
  · exact nonzero zero

theorem plain_of_named {letter : Char} {radix : Radix} (named : (letter, radix) ∈ counterLetters) :
    letter.isDigit = false ∧ isFlag letter = false ∧ letter ∉ ['#', '%', '*', '?'] := by
  simp only [counterLetters, List.mem_cons, Prod.mk.injEq, List.not_mem_nil, or_false] at named
  obtain ⟨rfl, rfl⟩ | ⟨rfl, rfl⟩ | ⟨rfl, rfl⟩ | ⟨rfl, rfl⟩ | ⟨rfl, rfl⟩ | ⟨rfl, rfl⟩ := named <;> decide

/-- No sign of the grammar stands in a percent counter behind its own. -/
theorem PercentBody.no_sign (viable : PercentBody body style) :
    ∀ c ∈ body, c ∉ ['#', '%', '*', '?'] := by
  cases viable with
  | mk flag digit narrow named =>
      have plain : ∀ c ∈ ['#', '%', '*', '?'], ¬(c = '-' ∨ c = '0') ∧ c.isDigit = false := by
        simp only [List.forall_mem_cons]
        exact ⟨by decide, by decide, by decide, by decide, List.forall_mem_nil _⟩
      intro c member sign
      rw [List.mem_append, List.mem_append, List.mem_singleton] at member
      obtain (flagged | digits) | rfl := member
      · exact (plain c sign).1 (flag c flagged)
      · exact Bool.false_ne_true ((plain c sign).2.symm.trans (digit c digits))
      · exact (plain_of_named named).2.2 sign

/-- Where a counter begins, and what else stands in it. -/
theorem CounterShape.signs (shape : CounterShape before behind span style) : ∃ c more,
    span = c :: more ∧ (c = '#' ∨ c = '%') ∧ ∀ a ∈ span, a ≠ '*' ∧ a ≠ '?' := by
  cases shape with
  | hashes n first last =>
      refine ⟨'#', List.replicate n '#', rfl, .inl rfl, fun a member => ?_⟩
      rw [List.eq_of_mem_replicate member]
      decide
  | percent viable =>
      refine ⟨'%', _, rfl, .inr rfl, List.forall_mem_cons.2 ⟨by decide, fun a member => ?_⟩⟩
      have no_sign := viable.no_sign a member
      constructor <;>
        · rintro rfl
          exact no_sign (by decide)

/-! ## Reading a percent counter -/

theorem percentStyle_eq {flags width : List Char} {radix : Radix} (nonzero : width.head? ≠ some '0') :
    percentStyle flags width radix = ⟨Radix.decimal.value width,
      flags.contains '0' && !flags.contains '-', flags.contains '-', radix⟩ := by
  simp only [percentStyle, nonzero, or_false, Bool.decide_and, decide_not, List.elem_eq_contains.symm,
    List.elem_eq_mem]

/-- Zeros count as flags, on whichever side they are. -/
theorem percentStyle_zeros (flags width : List Char) (zeros : Nat) (radix : Radix)
    (nonzero : width.head? ≠ some '0') :
    percentStyle flags (List.replicate zeros '0' ++ width) radix =
      percentStyle (flags ++ List.replicate zeros '0') width radix := by
  have value : Radix.decimal.value (List.replicate zeros '0' ++ width) = Radix.decimal.value width :=
    Text.numberIn_zeros zeros width
  cases zeros with
  | zero => rw [List.replicate_zero, List.nil_append, List.append_nil]
  | succ zeros =>
      rw [percentStyle, percentStyle, value]
      simp [nonzero, List.replicate_succ]

/-- A viable counter is read, whatever follows it. -/
theorem percent?_of_viable (viable : PercentBody body style) (s : List Char) :
    percent? (body ++ s) = some (style, body.length) := by
  cases viable with
  | @mk flags width letter radix flag digit narrow named =>
      -- Zeros in front of the width are read with the flags.
      obtain ⟨zeros, digits, rfl, nonzero⟩ : ∃ zeros digits, width = List.replicate zeros '0' ++ digits ∧
          digits.head? ≠ some '0' := by
        refine ⟨(width.takeWhile (· == '0')).length, width.dropWhile (· == '0'), ?_, fun zero => ?_⟩
        · rw [← List.eq_replicate_iff.2 ⟨rfl, fun c member => ?_⟩, List.takeWhile_append_dropWhile]
          have zero := List.mem_takeWhile_imp member
          exact beq_iff_eq.1 zero
        · cases head?_dropWhile_run (· == '0') width '0' zero
      obtain ⟨no_digit, no_flag, -⟩ := plain_of_named named
      rw [List.forall_mem_append] at digit
      have read_flags : (flags ++ List.replicate zeros '0' ++ (digits ++ letter :: s)).takeWhile isFlag =
          flags ++ List.replicate zeros '0' := by
        apply Text.takeWhile_run
        · intro c member
          obtain flagged | zero := List.mem_append.1 member
          · exact isFlag_iff.2 (flag c flagged)
          · exact isFlag_iff.2 (.inr (List.eq_of_mem_replicate zero))
        · intro c first
          cases digits with
          | nil => exact Option.some.inj first ▸ no_flag
          | cons d digits =>
              obtain rfl := Option.some.inj first
              exact isFlag_of_digit (digit.2 d List.mem_cons_self) fun zero => nonzero (congrArg some zero)
      have read_digits : (digits ++ letter :: s).takeWhile Char.isDigit = digits :=
        Text.takeWhile_run digit.2 fun c first => Option.some.inj first ▸ no_digit
      have shape : flags ++ (List.replicate zeros '0' ++ digits) ++ [letter] ++ s =
          flags ++ List.replicate zeros '0' ++ (digits ++ letter :: s) := by
        simp only [List.append_assoc, List.singleton_append]
      have value : Radix.decimal.value (List.replicate zeros '0' ++ digits) = Radix.decimal.value digits :=
        Text.numberIn_zeros zeros digits
      have long : (flags ++ (List.replicate zeros '0' ++ digits) ++ [letter]).length =
          (flags ++ List.replicate zeros '0').length + digits.length + 1 := by
        simp only [List.length_append, List.length_singleton, Nat.add_assoc]
      rw [percentStyle_zeros _ _ _ _ nonzero, percentStyle_eq nonzero, long, shape, percent?]
      simp only [read_flags, List.drop_left, read_digits, if_pos (value ▸ narrow),
        radix?_eq_some_iff.2 named, Option.map_some]

/-- What is read as a percent counter is viable. -/
theorem viable_of_percent? {used : Nat} (read : percent? s = some (style, used)) :
    ∃ body rest, s = body ++ rest ∧ body.length = used ∧ PercentBody body style := by
  rw [percent?] at read
  have flags_front := List.takeWhile_append_dropWhile (p := isFlag) (l := s)
  have flag : ∀ c ∈ s.takeWhile isFlag, isFlag c = true := fun c => List.mem_takeWhile_imp
  have unflagged := head?_dropWhile_run isFlag s
  generalize s.takeWhile isFlag = flags, s.dropWhile isFlag = left at *
  subst flags_front
  simp only [List.drop_left] at read
  have digits_front := List.takeWhile_append_dropWhile (p := Char.isDigit) (l := left)
  have digit : ∀ c ∈ left.takeWhile Char.isDigit, c.isDigit = true := fun c => List.mem_takeWhile_imp
  generalize left.takeWhile Char.isDigit = digits, left.dropWhile Char.isDigit = behind at *
  subst digits_front
  simp only [List.drop_left] at read
  split at read
  next narrow =>
    cases behind with
    | nil => cases read
    | cons letter behind =>
        obtain ⟨radix, named, same⟩ := Option.map_eq_some_iff.1 read
        obtain ⟨rfl, rfl⟩ := Prod.mk.inj same
        have nonzero : digits.head? ≠ some '0' := by
          intro zero
          cases digits with
          | nil => cases zero
          | cons d digits =>
              obtain rfl := Option.some.inj zero
              cases unflagged '0' rfl
        refine ⟨flags ++ digits ++ [letter], behind, by simp, by simp [Nat.add_assoc], ?_⟩
        rw [← percentStyle_eq nonzero]
        exact .mk (fun c member => isFlag_iff.1 (flag c member)) digit narrow (radix?_eq_some_iff.1 named)
  next => cases read

/-! ## Pieces and shapes -/

/-- Where a run is cut off the front, the rest does not go on with it. -/
theorem hash_run (rest : List Char) : ∃ run left, rest.takeWhile (· == '#') = run ∧
    rest.dropWhile (· == '#') = left ∧ rest = run ++ left ∧ run = List.replicate run.length '#' ∧
    left.head? ≠ some '#' := by
  refine ⟨_, _, rfl, rfl, List.takeWhile_append_dropWhile.symm, ?_, fun hash => ?_⟩
  · refine List.eq_replicate_iff.2 ⟨rfl, fun c member => ?_⟩
    have hash := List.mem_takeWhile_imp member
    exact beq_iff_eq.1 hash
  · cases head?_dropWhile_run (· == '#') rest '#' hash

/-- The shape of a counter lies behind the front of a text, or begins inside it. -/
theorem behind_or_inside (front : List Char) (parted : front ++ rest = ahead ++ (span ++ behind))
    (shape : CounterShape before behind span style) :
    (∃ more, ahead = front ++ more ∧ rest = more ++ (span ++ behind)) ∨
      ∃ c more others, front = ahead ++ c :: more ∧ span = c :: others ∧ (c = '#' ∨ c = '%') := by
  obtain ⟨more, same, left⟩ | ⟨more, same, left⟩ := List.append_eq_append_iff.1 parted
  · exact .inl ⟨more, same, left⟩
  · cases more with
    | nil =>
        rw [List.append_nil] at same
        exact .inl ⟨[], by rw [same, List.append_nil], left.symm⟩
    | cons c more =>
        obtain ⟨first, others, begins, sign, -⟩ := shape.signs
        rw [begins] at left
        obtain ⟨rfl, -⟩ := List.cons.inj left
        exact .inr ⟨first, more, others, same, begins, sign⟩

/-- A counter does not begin with a character that begins none, so it lies behind it. -/
theorem exists_behind_char {c : Char} (parted : c :: rest = ahead ++ (span ++ behind))
    (shape : CounterShape before behind span style)
    (begins_none : ∀ others, span = c :: others → rest = others ++ behind → c ≠ '#' ∧ c ≠ '%') :
    ∃ more, ahead = c :: more ∧ rest = more ++ (span ++ behind) := by
  cases ahead with
  | nil =>
      obtain ⟨first, others, rfl, sign, -⟩ := shape.signs
      obtain ⟨rfl, rfl⟩ := List.cons.inj parted
      obtain ⟨no_hash, no_percent⟩ := begins_none others rfl rfl
      exact absurd sign (not_or.2 ⟨no_hash, no_percent⟩)
  | cons a more =>
      obtain ⟨rfl, left⟩ := List.cons.inj parted
      exact ⟨more, rfl, left⟩

/-- A percent sign begins a counter when it has a viable one behind it. -/
theorem CounterShape.percent?_eq {more : List Char}
    (shape : CounterShape before behind ('%' :: more) style) (s : List Char) : percent? (more ++ s) = some (style, more.length) := by
  cases shape with
  | percent viable => exact percent?_of_viable viable s

/-- A run of hash signs in the shape of a counter is all of the run. -/
theorem CounterShape.run_eq {more run left : List Char}
    (shape : CounterShape before behind ('#' :: more) style) (parted : run ++ left = more ++ behind) (each : run = List.replicate run.length '#')
    (ends : left.head? ≠ some '#') : more = run ∧ style = .hashes (run.length + 1) := by
  generalize begins : '#' :: more = span at shape
  cases shape with
  | percent _ => cases begins
  | hashes n first last =>
      obtain rfl : more = List.replicate n '#' := (List.cons.inj begins).2
      have whole : ∀ {k : Nat} {t : List Char}, t.head? ≠ some '#' →
          (List.replicate k '#' ++ t).takeWhile (· == '#') = List.replicate k '#' := by
        intro k t ends
        refine Text.takeWhile_run (fun c member => ?_) fun c first => ?_
        · rw [List.eq_of_mem_replicate member]
          rfl
        · exact beq_eq_false_iff_ne.2 fun hash => ends (hash ▸ first)
      have same := congrArg (List.takeWhile (· == '#')) parted
      rw [each, whole ends, whole last] at same
      have long := congrArg List.length same
      rw [List.length_replicate, List.length_replicate] at long
      rw [each, long, List.length_replicate]
      exact ⟨rfl, rfl⟩

/-- A counter that begins in a run of hash signs is all of the run. -/
theorem CounterShape.of_inside_hashes {c : Char} {hashes left more others : List Char}
    (shape : CounterShape (before ++ ahead) behind (c :: others) style)
    (inside : '#' :: hashes = ahead ++ c :: more)
    (parted : '#' :: hashes ++ left = ahead ++ (c :: others ++ behind))
    (each : hashes = List.replicate hashes.length '#') (ends : left.head? ≠ some '#') :
    ahead = [] ∧ c :: others = '#' :: hashes ∧ style = .hashes (hashes.length + 1) := by
  have hash : ∀ a ∈ ahead ++ c :: more, a = '#' := by
    intro a member
    rw [← inside, each, ← List.replicate_succ] at member
    exact List.eq_of_mem_replicate member
  obtain rfl := hash c (List.mem_append_right _ List.mem_cons_self)
  cases ahead using List.reverseRecOn with
  | nil =>
      obtain ⟨rfl, rfl⟩ := shape.run_eq (List.cons.inj parted).2 each ends
      exact ⟨rfl, rfl, rfl⟩
  | append_singleton ahead a =>
      obtain rfl := hash a (by simp)
      generalize begins : '#' :: others = span at shape
      cases shape with
      | percent _ => cases begins
      | hashes n first last => simp at first

/-- A counter that begins in a percent counter is all of that. -/
theorem CounterShape.of_inside_percent {c : Char} {body left more others : List Char}
    {known : CounterStyle} (shape : CounterShape (before ++ ahead) behind (c :: others) style)
    (sign : c = '#' ∨ c = '%') (inside : '%' :: body = ahead ++ c :: more)
    (parted : '%' :: body ++ left = ahead ++ (c :: others ++ behind))
    (viable : PercentBody body known) : ahead = [] ∧ c :: others = '%' :: body ∧ style = known := by
  cases ahead with
  | nil =>
      obtain ⟨rfl, -⟩ := List.cons.inj inside
      have same : body ++ left = others ++ behind := (List.cons.inj parted).2
      have found := shape.percent?_eq behind
      rw [← same, percent?_of_viable viable] at found
      obtain ⟨rfl, long⟩ := Prod.mk.inj (Option.some.inj found)
      obtain rfl := (List.append_inj same long).1
      exact ⟨rfl, rfl, rfl⟩
  | cons a ahead =>
      obtain ⟨rfl, same⟩ := List.cons.inj inside
      have member : c ∈ body := same ▸ List.mem_append_right _ List.mem_cons_self
      refine absurd ?_ (viable.no_sign c member)
      obtain rfl | rfl := sign <;> decide

/-- A piece behind the first one is a piece of the whole. -/
theorem exists_piece_cons (p : Piece) {more : List Char} {others : List Piece}
    (later : ∃ front back, others = front ++ .counter span style :: back ∧
      front.flatMap Piece.span = more) :
    ∃ front back, p :: others = front ++ .counter span style :: back ∧
      front.flatMap Piece.span = p.span ++ more := by
  obtain ⟨front, back, split, flat⟩ := later
  exact ⟨p :: front, back, congrArg (p :: ·) split, by rw [List.flatMap_cons, flat]⟩

/-- Every stretch in the shape of a counter is cut out of the pattern as a piece. -/
theorem exists_piece (before : List Char) (parted : s = ahead ++ (span ++ behind))
    (shape : CounterShape (before ++ ahead) behind span style) :
    ∃ front back, pieces s = front ++ .counter span style :: back ∧
      front.flatMap Piece.span = ahead := by
  -- Behind the first piece the rest of the pattern is cut in the same way.
  fun_induction pieces s generalizing before ahead with
  | case1 =>
      obtain ⟨c, more, rfl, -⟩ := shape.signs
      simp at parted
  | case2 rest run =>
      rename_i ih
      obtain ⟨hashes, left, taken, dropped, rfl, each, ends⟩ := hash_run rest
      rw [dropped] at ih
      rw [dropped, show run = hashes from taken]
      obtain ⟨more, rfl, there⟩ | ⟨c, more, others, inside, rfl, -⟩ :=
        behind_or_inside ('#' :: hashes) parted shape
      · exact exists_piece_cons _ (ih _ there (by rwa [List.append_assoc]))
      · obtain ⟨rfl, same, rfl⟩ := shape.of_inside_hashes inside parted each ends
        exact ⟨[], _, by rw [same]; rfl, rfl⟩
  | case3 rest _ ih =>
      obtain ⟨more, rfl, there⟩ := exists_behind_char parted shape (by simp)
      exact exists_piece_cons .star (ih _ there (List.append_cons _ _ _ ▸ shape))
  | case4 rest _ _ ih =>
      obtain ⟨more, rfl, there⟩ := exists_behind_char parted shape (by simp)
      exact exists_piece_cons .mark (ih _ there (List.append_cons _ _ _ ▸ shape))
  | case5 rest known used read _ _ _ ih =>
      obtain ⟨body, left, rfl, rfl, viable⟩ := viable_of_percent? read
      rw [List.drop_left] at ih
      rw [List.take_left, List.drop_left]
      obtain ⟨more, rfl, there⟩ | ⟨c, more, others, inside, rfl, sign⟩ :=
        behind_or_inside ('%' :: body) parted shape
      · exact exists_piece_cons _ (ih _ there (by rwa [List.append_assoc]))
      · obtain ⟨rfl, same, rfl⟩ := shape.of_inside_percent sign inside parted viable
        exact ⟨[], _, by rw [same]; rfl, rfl⟩
  | case6 rest none _ _ _ ih =>
      obtain ⟨more, rfl, there⟩ := exists_behind_char parted shape fun others begins left => by
        obtain rfl := begins
        have found := shape.percent?_eq behind
        rw [← left, none] at found
        cases found
      exact exists_piece_cons (.plain _) (ih _ there (List.append_cons _ _ _ ▸ shape))
  | case7 c rest hash _ _ percent ih =>
      obtain ⟨more, rfl, there⟩ := exists_behind_char parted shape (by simp [hash, percent])
      exact exists_piece_cons (.plain _) (ih _ there (List.append_cons _ _ _ ▸ shape))

theorem PercentBody.getLast?_ne (viable : PercentBody body style) (before : List Char) :
    (before ++ '%' :: body).getLast? ≠ some '#' := by
  cases viable with
  | @mk flags width letter radix flag digit narrow named =>
      rw [← List.cons_append, ← List.append_assoc, List.getLast?_concat]
      intro hash
      obtain rfl := Option.some.inj hash
      exact (plain_of_named named).2.2 (by decide)

/-- The counters among the pieces that stand behind a text all have the shape of one. -/
def Shaped (before : List Char) (all : List Piece) : Prop :=
  ∀ front span style back, all = front ++ .counter span style :: back →
    CounterShape (before ++ front.flatMap Piece.span) (back.flatMap Piece.span) span style

theorem Shaped.cons {p : Piece} {later : List Piece} (shaped : Shaped (before ++ p.span) later)
    (own : ∀ span style, p = .counter span style →
      CounterShape before (later.flatMap Piece.span) span style) :
    Shaped before (p :: later) := by
  intro front span style back split
  obtain ⟨rfl, here⟩ | ⟨front, rfl, there⟩ := List.cons_eq_append_iff.1 split
  · obtain ⟨same, rfl⟩ := List.cons.inj here
    rw [List.flatMap_nil, List.append_nil]
    exact own span style same.symm
  · rw [List.flatMap_cons, ← List.append_assoc]
    exact shaped front span style back there

/-- No run of hash signs goes over the front of the pieces or over a cut between them. -/
theorem shaped_pieces (bounded : s.head? = some '#' → before.getLast? ≠ some '#') :
    Shaped before (pieces s) := by
  fun_induction pieces s generalizing before with
  | case1 =>
      intro front span style back split
      simp at split
  | case2 rest run =>
      rename_i ih
      obtain ⟨hashes, left, taken, dropped, rfl, each, ends⟩ := hash_run rest
      rw [dropped] at ih
      rw [dropped, show run = hashes from taken]
      refine (ih fun hash => absurd hash ends).cons fun span style same => ?_
      obtain ⟨rfl, rfl⟩ := Piece.counter.inj same
      rw [flatMap_span_pieces, each, List.length_replicate]
      exact .hashes _ (bounded rfl) ends
  | case5 rest known used read _ _ _ ih =>
      obtain ⟨body, left, rfl, rfl, viable⟩ := viable_of_percent? read
      rw [List.drop_left] at ih
      rw [List.take_left, List.drop_left]
      refine Shaped.cons (ih fun _ => viable.getLast?_ne before) fun span style same => ?_
      obtain ⟨rfl, rfl⟩ := Piece.counter.inj same
      exact .percent viable
  | case3 rest _ ih | case4 rest _ _ ih | case6 rest _ _ _ _ ih =>
      exact Shaped.cons (ih fun _ => by simp [Piece.span]) fun span style same => by cases same
  | case7 c rest hash _ _ _ ih =>
      exact Shaped.cons (ih fun _ => by simp [Piece.span, hash]) fun span style same => by cases same

/-- Stretches in the shape of a counter are the counters among the pieces. -/
theorem counterAt_iff {offset : Nat} : CounterAt pattern offset span style ↔ ∃ front back,
    pieces pattern = front ++ .counter span style :: back ∧
      (front.flatMap Piece.span).length = offset := by
  constructor
  · rintro ⟨before, behind, parted, long, shape⟩
    obtain ⟨front, back, split, flat⟩ :=
      exists_piece [] (parted.trans (List.append_assoc _ _ _)) shape
    exact ⟨front, back, split, flat ▸ long⟩
  · rintro ⟨front, back, split, long⟩
    have shaped : Shaped [] (pieces pattern) := shaped_pieces (by simp)
    refine ⟨front.flatMap Piece.span, back.flatMap Piece.span, ?_, long,
      shaped front span style back split⟩
    have whole := flatMap_span_pieces pattern
    rw [split, List.flatMap_append, List.flatMap_cons] at whole
    rw [← whole, List.append_assoc]
    rfl

/-- Signs for wildcards are never taken as plain. -/
theorem plain_of_mem_pieces {c : Char} (member : Piece.plain c ∈ pieces s) : c ≠ '*' ∧ c ≠ '?' := by
  fun_induction pieces s with
  | case1 => cases member
  | case2 rest run ih | case3 rest _ ih | case4 rest _ _ ih | case5 rest _ _ _ _ _ _ ih =>
      obtain never | there := List.mem_cons.1 member
      · cases never
      · exact ih there
  | case6 rest _ _ _ _ ih =>
      obtain here | there := List.mem_cons.1 member
      · obtain rfl := Piece.plain.inj here
        decide
      · exact ih there
  | case7 c' rest _ star mark _ ih =>
      obtain here | there := List.mem_cons.1 member
      · obtain rfl := Piece.plain.inj here
        exact ⟨star, mark⟩
      · exact ih there

end Renumber.Pattern
