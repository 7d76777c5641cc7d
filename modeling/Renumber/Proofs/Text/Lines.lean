import Renumber.Proofs.Path.Segments
import Renumber.Proofs.Text.Utf8

/-!
# Lines

A text that is put together from ended lines is taken apart into them again, whatever
follows. It makes no difference whether a text or its bytes are taken apart, so the lines
of a text are all text.
-/

namespace Renumber.Text

section

variable {α : Type} [DecidableEq α] {newline : α}

theorem linesOf_nil (newline : α) : linesOf newline [] = [] := rfl

/-- A line that is ended is the first one. -/
theorem linesOf_line {s : List α} (one_line : newline ∉ s) (rest : List α) :
    linesOf newline (s ++ newline :: rest) = s :: linesOf newline rest := by
  have pieces := splitOn_append_cons one_line rest
  have some_piece := splitOn_ne_nil newline rest
  rw [linesOf, linesOf, pieces, List.getLast?_cons_of_ne_nil some_piece,
    List.dropLast_cons_of_ne_nil some_piece]
  split <;> rfl

/-- Lines, each with its end. -/
def ended (newline : α) (lines : List (List α)) : List α :=
  lines.flatMap (· ++ [newline])

omit [DecidableEq α] in
@[simp] theorem ended_nil (newline : α) : ended newline [] = [] := rfl

omit [DecidableEq α] in
@[simp] theorem ended_cons (newline : α) (s : List α) (lines : List (List α)) :
    ended newline (s :: lines) = s ++ newline :: ended newline lines := by
  simp [ended]

omit [DecidableEq α] in
@[simp] theorem ended_append (newline : α) (front back : List (List α)) :
    ended newline (front ++ back) = ended newline front ++ ended newline back := by
  simp [ended]

omit [DecidableEq α] in
/-- Ended lines are empty or end a line. -/
theorem ended_whole (newline : α) (lines : List (List α)) :
    ended newline lines = [] ∨ (ended newline lines).getLast? = some newline := by
  induction lines using List.reverseRecOn with
  | nil => exact .inl rfl
  | append_singleton front s _ =>
      right
      rw [ended_append, ended_cons, ended_nil, ← List.append_assoc, List.getLast?_concat]

/-- Ended lines come first among the lines of a text. -/
theorem linesOf_ended_append {lines : List (List α)} (each : ∀ s ∈ lines, newline ∉ s)
    (rest : List α) :
    linesOf newline (ended newline lines ++ rest) = lines ++ linesOf newline rest := by
  induction lines with
  | nil => rfl
  | cons s lines ih =>
      rw [List.forall_mem_cons] at each
      rw [ended_cons, List.append_assoc, List.cons_append, linesOf_line each.1, ih each.2]
      rfl

omit [DecidableEq α] in
/-- A cut through ended lines leaves whole lines and a part of the next one. -/
theorem exists_of_prefix_ended {lines : List (List α)} {cut : List α}
    (front : cut <+: ended newline lines) :
    ∃ whole rest part, lines = whole ++ rest ∧ cut = ended newline whole ++ part ∧
      part <+: rest.headD [] := by
  induction lines generalizing cut with
  | nil => exact ⟨[], [], cut, rfl, rfl, front⟩
  | cons s lines ih =>
      rw [ended_cons, ← List.singleton_append, ← List.append_assoc] at front
      rcases List.prefix_or_prefix_of_prefix front (List.prefix_append _ _) with within | beyond
      · obtain rfl | within := List.prefix_concat_iff.1 within
        · exact ⟨[s], lines, [], rfl, by simp, List.nil_prefix⟩
        · exact ⟨[], s :: lines, cut, rfl, rfl, within⟩
      · obtain ⟨more, rfl⟩ := beyond
        rw [List.prefix_append_right_inj] at front
        obtain ⟨whole, rest, part, rfl, rfl, within⟩ := ih front
        exact ⟨s :: whole, rest, part, rfl, by simp, within⟩

/-- A text of one line, whether or not it is ended. -/
theorem linesOf_part {s : List α} (one_line : newline ∉ s) (some_char : s ≠ []) :
    linesOf newline s = [s] := by
  rw [linesOf, splitOn_of_not_mem one_line]
  exact if_neg fun same => some_char (Option.some.inj same)

/-- A text that is empty or ends a line is made of ended lines. -/
theorem exists_ended (text : List α) (whole : text = [] ∨ text.getLast? = some newline) :
    ∃ lines, (∀ s ∈ lines, newline ∉ s) ∧ text = ended newline lines := by
  obtain rfl | last := whole
  · exact ⟨[], by simp, rfl⟩
  · obtain ⟨front, rfl⟩ := List.getLast?_eq_some_iff.1 last
    refine ⟨splitOn newline front, fun s member => not_mem_of_mem_splitOn member, ?_⟩
    have joined : ∀ pieces : List (List α), pieces ≠ [] →
        joinWith newline pieces ++ [newline] = ended newline pieces := by
      intro pieces some_piece
      induction pieces with
      | nil => exact absurd rfl some_piece
      | cons piece pieces ih =>
          cases pieces with
          | nil => rw [joinWith, ended_cons, ended_nil]
          | cons next pieces =>
              have rest := ih (by simp)
              rw [joinWith.eq_3 _ _ _ (by simp), List.append_assoc, List.cons_append, rest]
              exact (ended_cons newline piece (next :: pieces)).symm
    rw [← joined _ (splitOn_ne_nil newline front), joinWith_splitOn]

/-- The lines of a text behind one that ends a line come behind the lines of that. -/
theorem linesOf_append {front : List α} (whole : front = [] ∨ front.getLast? = some newline)
    (back : List α) :
    linesOf newline (front ++ back) = linesOf newline front ++ linesOf newline back := by
  obtain ⟨lines, each, rfl⟩ := exists_ended front whole
  have alone := linesOf_ended_append each []
  rw [List.append_nil, linesOf_nil, List.append_nil] at alone
  rw [linesOf_ended_append each, alone]

end

/-! ## Lines of bytes -/

theorem newline_not_mem_encodeChar {c : Char} (other : c ≠ '\n') :
    10 ∉ String.utf8EncodeChar c :=
  fun member => other (eq_of_mem_encodeChar (by decide) member).symm

theorem newline_not_mem_encode {s : List Char} (one_line : '\n' ∉ s) : 10 ∉ encode s :=
  fun member => one_line (mem_of_mem_encode (by decide) member)

/-- What holds no separator joins the first piece of what follows. -/
theorem splitOn_append {α : Type} [DecidableEq α] {sep : α} {s rest piece : List α}
    {more : List (List α)} (one : sep ∉ s) (pieces : splitOn sep rest = piece :: more) :
    splitOn sep (s ++ rest) = (s ++ piece) :: more := by
  induction s with
  | nil => exact pieces
  | cons a s ih =>
      rw [List.mem_cons, not_or] at one
      rw [List.cons_append, splitOn, if_neg (Ne.symm one.1), ih one.2]
      rfl

theorem splitOn_encode (s : List Char) :
    splitOn 10 (encode s) = (splitOn '\n' s).map encode := by
  induction s with
  | nil => rfl
  | cons c s ih =>
      rw [encode_cons]
      by_cases ends : c = '\n'
      · subst ends
        rw [splitOn_cons_self, List.map_cons, ← ih]
        exact splitOn_cons_self 10 _
      · obtain ⟨piece, more, pieces⟩ := List.exists_cons_of_ne_nil (splitOn_ne_nil '\n' s)
        rw [pieces, List.map_cons] at ih
        have one : splitOn '\n' ([c] ++ s) = ([c] ++ piece) :: more :=
          splitOn_append (by simpa using Ne.symm ends) pieces
        rw [splitOn_append (newline_not_mem_encodeChar ends) ih]
        rw [List.cons_append, List.nil_append] at one
        rw [one]
        rfl

/-- The bytes of ended lines are the ended bytes of the lines. -/
theorem encode_ended (lines : List (List Char)) :
    encode (ended '\n' lines) = ended 10 (lines.map encode) := by
  induction lines with
  | nil => rfl
  | cons s lines ih =>
      rw [ended_cons, encode_append, encode_cons, ih, List.map_cons, ended_cons]
      rfl

/-- The lines of the bytes of a text are the bytes of its lines. -/
theorem linesOf_encode (s : List Char) :
    linesOf 10 (encode s) = (linesOf '\n' s).map encode := by
  have empty : ∀ t : List Char, encode t = [] ↔ t = [] := by
    intro t
    rw [← encode_nil, encode_injective.eq_iff]
  have last : ((splitOn '\n' s).map encode).getLast? = some [] ↔
      (splitOn '\n' s).getLast? = some [] := by
    rw [List.getLast?_map, Option.map_eq_some_iff]
    simp only [empty, exists_eq_right]
  rw [linesOf, linesOf, splitOn_encode]
  by_cases ended : (splitOn '\n' s).getLast? = some []
  · rw [if_pos ended, if_pos (last.2 ended), List.map_dropLast]
  · rw [if_neg ended, if_neg (mt last.1 ended)]

end Renumber.Text
