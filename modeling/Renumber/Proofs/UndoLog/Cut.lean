import Renumber.Proofs.UndoLog.RoundTrip

/-!
# Logs that are cut

A log can end anywhere: inside a tag, inside a command or inside a character. What is left
of it is whole lines and a part of the next one. That part closes a batch only if it is an
end tag that lacks its line end, since no other line of a log begins like one. So the
batches that are read are those whose end tags are left.
-/

namespace Renumber.UndoLog

open Renumber.Text (ended isBlank trim trimEnd)

variable {s t : List Char} {b : Batch} {bs : List Batch} {lines whole rest : List (List Char)}

/-- How many of some ended lines are end tags and lie wholly within the first `n` bytes.
The byte that ends a line need not. No line lies within what is left behind the last of the
bytes, because an end tag is not empty. -/
def endTagsWithin : Nat → List (List Char) → Nat
  | _, [] => 0
  | n, s :: rest =>
    (if s = endTag ∧ (Text.encode s).length ≤ n then 1 else 0) +
      endTagsWithin (n - ((Text.encode s).length + 1)) rest

/-! ## Lines that close a batch -/

theorem endTag_eq : endTag = '<' :: "END OF BATCH>".toList := by
  decide

theorem trimEnd_isPrefix (s : List Char) : trimEnd s <+: s := by
  have tail : s.reverse.dropWhile isBlank <:+ s.reverse := List.dropWhile_suffix isBlank
  rwa [← List.reverse_prefix, List.reverse_reverse] at tail

/-- A text that is an end tag but for blanks begins with one, unless it begins with a
blank. -/
theorem endTag_isPrefix {c : Char} (printed : isBlank c = false) (front : t <+: c :: s)
    (ends : trim t = endTag) : endTag <+: t := by
  obtain rfl | ⟨rest, rfl, -⟩ := List.prefix_cons_iff.1 front
  · cases ends
  · rw [← ends, trim, Time.trimStart_of_head printed]
    exact trimEnd_isPrefix _

/-- No part of the line, from its front, is read as an end tag. -/
def Harmless (s : List Char) : Prop :=
  ∀ t, t <+: s → trim t ≠ endTag

theorem harmless_nil : Harmless [] := by
  intro t front ends
  rw [List.prefix_nil.1 front] at ends
  cases ends

theorem harmless_header (recorded : b.isRecorded = true) : Harmless (header b) := by
  intro t front ends
  have tag : endTag <+: header b := by
    rw [header_eq] at front ⊢
    exact (endTag_isPrefix (by decide) front ends).trans front
  -- the words for the kinds that are recorded begin with other letters than the end tag
  rw [endTag_eq, header_eq, List.cons_prefix_cons] at tag
  cases kind : b.kind with
  | rename =>
      rw [kind] at tag
      exact absurd (List.cons_prefix_cons.1 tag.2).1 (by decide)
  | touch =>
      rw [kind] at tag
      exact absurd (List.cons_prefix_cons.1 tag.2).1 (by decide)
  | _ =>
      rw [Batch.isRecorded, kind] at recorded
      cases recorded

theorem harmless_entry (entry : IsEntry s) : Harmless s := by
  intro t front ends
  obtain ⟨c, rest, rfl, printed, no_tag⟩ := entry.first
  have tag : endTag <+: c :: rest := (endTag_isPrefix printed front ends).trans front
  rw [endTag_eq, List.cons_prefix_cons] at tag
  exact no_tag tag.1.symm

/-- Only the last line of a batch closes it. -/
theorem harmless_front (back : ReadsBack b) :
    ∀ s ∈ header b :: b.commands.map lineOf, Harmless s := by
  rw [List.forall_mem_cons, List.forall_mem_map]
  exact ⟨harmless_header back.recorded, fun c member => harmless_entry (back.entries c member).1⟩

theorem harmless_or_endTag (back : ∀ b ∈ bs, ReadsBack b) :
    ∀ s ∈ stackLines bs, Harmless s ∨ s = endTag := by
  have batch : ∀ {b}, ReadsBack b → ∀ s ∈ batchLines b, Harmless s ∨ s = endTag := by
    intro b back s member
    rw [batchLines, ← List.cons_append, List.mem_append, List.mem_singleton] at member
    exact member.imp_left (harmless_front back s)
  induction bs with
  | nil => exact List.forall_mem_nil _
  | cons b rest ih =>
      obtain ⟨own, others⟩ := List.forall_mem_cons.1 back
      cases rest with
      | nil => exact batch own
      | cons next rest =>
          rw [stackLines_cons_cons, List.forall_mem_append, List.forall_mem_cons]
          exact ⟨batch own, .inl harmless_nil, ih others⟩

/-- A part of an end tag is read as one only if it is all of it. -/
theorem eq_endTag_of_isPrefix (front : t <+: endTag) (ends : trim t = endTag) : t = endTag := by
  have tag : endTag <+: t := by
    rw [endTag_eq] at front
    exact endTag_isPrefix (by decide) front ends
  exact front.eq_of_length_le tag.length_le

/-- A line that is no end tag puts nothing on the stack. -/
theorem stack_readLine (other : trim s ≠ endTag) (r : ReadState) :
    (readLine r s).stack = r.stack := by
  rw [readLine]
  simp only [other, ↓reduceIte]
  split
  · rfl
  split
  · rfl
  · rfl
  split
  · split <;> rfl
  · rfl

theorem stack_foldl (harmless : ∀ s ∈ lines, Harmless s) (r : ReadState) :
    (lines.foldl readLine r).stack = r.stack := by
  induction lines generalizing r with
  | nil => rfl
  | cons s lines ih =>
      obtain ⟨own, others⟩ := List.forall_mem_cons.1 harmless
      rw [List.foldl_cons, ih others, stack_readLine (own s (List.prefix_refl s))]

theorem count_of_harmless (harmless : ∀ s ∈ lines, Harmless s) : lines.count endTag = 0 := by
  rw [List.count_eq_zero]
  intro member
  exact harmless endTag member endTag (List.prefix_refl _) (by decide)

/-! ## Whole lines -/

theorem count_batchLines (back : ReadsBack b) : (batchLines b).count endTag = 1 := by
  rw [batchLines, ← List.cons_append, List.count_append, count_of_harmless (harmless_front back)]
  rfl

/-- The first lines of a log put as many batches on the stack as there are end tags among
them. -/
theorem stack_foldl_of_isPrefix (back : ∀ b ∈ bs, ReadsBack b) (front : lines <+: stackLines bs)
    (r : ReadState) :
    (lines.foldl readLine r).stack = r.stack ++ (bs.map asRead).take (lines.count endTag) := by
  -- a prefix of one batch's lines: all of them, or lines that do not close it
  have batch : ∀ {b lines} (r : ReadState), ReadsBack b → lines <+: batchLines b →
      ∀ more : List Batch, (lines.foldl readLine r).stack =
        r.stack ++ (asRead b :: more).take (lines.count endTag) := by
    intro b lines r back front more
    rw [batchLines, ← List.cons_append, List.prefix_concat_iff] at front
    obtain all | part := front
    · rw [all, List.cons_append, ← batchLines, foldl_batchLines back, count_batchLines back]
      rfl
    · have harmless := fun s member => harmless_front back s (part.subset member)
      rw [stack_foldl harmless, count_of_harmless harmless, List.take_zero, List.append_nil]
  induction bs generalizing lines r with
  | nil =>
      rw [List.prefix_nil.1 front]
      exact (List.append_nil _).symm
  | cons b rest ih =>
      obtain ⟨own, others⟩ := List.forall_mem_cons.1 back
      cases rest with
      | nil => exact batch r own front []
      | cons next rest =>
          rw [stackLines_cons_cons] at front
          rcases List.prefix_or_prefix_of_prefix front (List.prefix_append _ _) with within | beyond
          · exact batch r own within _
          obtain ⟨more, rfl⟩ := beyond
          rw [List.prefix_append_right_inj] at front
          rw [List.foldl_append, foldl_batchLines own, List.count_append, count_batchLines own]
          obtain rfl | ⟨more, rfl, later⟩ := List.prefix_cons_iff.1 front
          · rfl
          · have no_tag : ([] :: more).count endTag = more.count endTag :=
              List.count_cons_of_ne (by decide)
            rw [List.foldl_cons, readLine_nil, ih others later, no_tag, Nat.add_comm 1]
            exact List.append_assoc r.stack [asRead b] _

/-! ## The part of a line -/

theorem endTagsWithin_zero (lines : List (List Char)) : endTagsWithin 0 lines = 0 := by
  induction lines with
  | nil => rfl
  | cons s lines ih =>
      have none : ¬(s = endTag ∧ (Text.encode s).length ≤ 0) := by
        rintro ⟨rfl, short⟩
        revert short
        decide
      rw [endTagsWithin, if_neg none, Nat.zero_sub, ih]

theorem endTagsWithin_append (whole rest : List (List Char)) (part : List UInt8) :
    endTagsWithin (ended newline (whole.map Text.encode) ++ part).length (whole ++ rest) =
      whole.count endTag + endTagsWithin part.length rest := by
  induction whole with
  | nil => exact (Nat.zero_add _).symm
  | cons s whole ih =>
      have size : (ended newline ((s :: whole).map Text.encode) ++ part).length =
          (Text.encode s).length + 1 + (ended newline (whole.map Text.encode) ++ part).length := by
        rw [List.map_cons, Text.ended_cons, List.append_assoc, List.length_append, List.cons_append,
          List.length_cons]
        omega
      rw [size, List.cons_append, endTagsWithin, Nat.add_sub_cancel_left, ih, List.count_cons]
      by_cases tag : s = endTag
      · rw [if_pos ⟨tag, by omega⟩, if_pos (beq_iff_eq.2 tag)]
        omega
      · rw [if_neg fun both => tag both.1, if_neg (by simpa using tag)]
        omega

theorem endTagsWithin_part {part : List UInt8} (front : part <+: Text.encode s)
    (rest : List (List Char)) :
    endTagsWithin part.length (s :: rest) = if s = endTag ∧ part = Text.encode s then 1 else 0 := by
  have short := front.length_le
  rw [endTagsWithin, Nat.sub_eq_zero_of_le (by omega), endTagsWithin_zero, Nat.add_zero]
  refine if_congr (and_congr_right fun _ => ?_) rfl rfl
  exact ⟨front.eq_of_length_le, fun same => same ▸ le_refl _⟩

/-- What is left of a line behind whole ones closes a batch if it is an end tag, and
otherwise makes no difference. -/
theorem stack_part (line : Harmless s ∨ s = endTag) (one_line : '\n' ∉ s) {part : List UInt8}
    (front : part <+: Text.encode s) (r : ReadState) :
    (readLines r (Text.linesOf newline part)).1.stack =
      if s = endTag ∧ part = Text.encode s then (readLine r endTag).stack else r.stack := by
  by_cases some_byte : part = []
  · subst some_byte
    have empty : ¬(s = endTag ∧ [] = Text.encode s) := by
      rintro ⟨rfl, same⟩
      revert same
      decide
    rw [if_neg empty]
    rfl
  have one_line : newline ∉ part := fun member =>
    Text.newline_not_mem_encode one_line (front.subset member)
  rw [Text.linesOf_part one_line some_byte, readLines]
  cases read : Text.decode? part with
  | none =>
      have other : ¬(s = endTag ∧ part = Text.encode s) := by
        rintro ⟨-, rfl⟩
        rw [Text.decode?_encode] at read
        cases read
      rw [if_neg other]
  | some t =>
      obtain rfl := Text.encode_of_decode? read
      have front := Text.prefix_of_encode front
      dsimp only [readLines]
      by_cases ends : trim t = endTag
      · obtain harmless | rfl := line
        · exact absurd ends (harmless t front)
        · rw [eq_endTag_of_isPrefix front ends, if_pos ⟨rfl, rfl⟩]
      · have other : ¬(s = endTag ∧ Text.encode t = Text.encode s) := by
          rintro ⟨rfl, same⟩
          rw [Text.encode_injective same] at ends
          exact ends (by decide)
        rw [if_neg other, stack_readLine ends]

/-- From the bytes of a log up to any of them the batches are read whose end tags lie wholly
within these bytes. -/
theorem read_of_isPrefix (back : ∀ b ∈ bs, ReadsBack b) {cut : List UInt8}
    (front : cut <+: Text.encode (ended '\n' (stackLines bs))) :
    read cut = (bs.map asRead).take (endTagsWithin cut.length (stackLines bs)) := by
  rw [Text.encode_ended] at front
  obtain ⟨_, _, part, split, rfl, within⟩ := Text.exists_of_prefix_ended front
  obtain ⟨whole, rest, lines, rfl, rfl⟩ := List.map_eq_append_iff.1 split
  have whole_lines : ∀ s ∈ whole.map Text.encode, newline ∉ s := by
    rw [List.forall_mem_map]
    intro s member
    refine Text.newline_not_mem_encode (newline_not_mem_stackLines back s ?_)
    rw [lines]
    exact List.mem_append_left _ member
  have read_lines : read (ended 10 (whole.map Text.encode) ++ part) =
      (readLines (whole.foldl readLine ⟨[], .outside⟩) (Text.linesOf newline part)).1.stack := by
    have split : Text.linesOf newline (ended newline (whole.map Text.encode) ++ part) = _ :=
      Text.linesOf_ended_append whole_lines part
    rw [← readLines_encode_append, ← split]
    rfl
  have within_whole : whole <+: stackLines bs := ⟨rest, lines.symm⟩
  have stack := stack_foldl_of_isPrefix back within_whole ⟨[], .outside⟩
  have count : endTagsWithin (ended 10 (whole.map Text.encode) ++ part).length (stackLines bs) =
      whole.count endTag + endTagsWithin part.length rest := by
    rw [lines]
    exact endTagsWithin_append whole rest part
  rw [read_lines, count]
  cases rest with
  | nil =>
      rw [List.prefix_nil.1 within]
      exact stack
  | cons s rest =>
      have member : s ∈ stackLines bs := by
        rw [lines]
        exact List.mem_append_right _ List.mem_cons_self
      rw [stack_part (harmless_or_endTag back s member) (newline_not_mem_stackLines back s member)
        within, endTagsWithin_part within]
      split
      · next tag =>
        -- an end tag without its line end is read like one with it
        have one_more : whole ++ [endTag] <+: stackLines bs :=
          ⟨rest, by rw [lines, ← tag.1, List.append_assoc]; rfl⟩
        have stack := stack_foldl_of_isPrefix back one_more ⟨[], .outside⟩
        rw [List.foldl_append, List.count_append] at stack
        exact stack
      · exact stack

/-- A log that is cut anywhere, be it within a tag, a command or a character, holds the
first batches of the stack it was written from: as many as there are lines with an end tag
that lie wholly before the cut, with or without their line ends. So no batch is read with
only a part of its commands. -/
theorem read_cut {stack : List Batch} (regular : ∀ b ∈ stack, b.isRecorded = true → b.IsRegular)
    {cut : List UInt8} (front : cut <+: Text.encode (write stack).text) :
    (write stack).fault = none ∧ read cut = (kept stack).take
      (endTagsWithin cut.length (Text.linesOf '\n' (write stack).text)) := by
  obtain ⟨written, back, same⟩ := write_regular regular
  have lines : Text.linesOf '\n' (ended '\n' (stackLines (stack.filter isWritten))) =
      stackLines (stack.filter isWritten) := by
    have alone := Text.linesOf_ended_append (newline_not_mem_stackLines back) []
    rwa [List.append_nil, Text.linesOf_nil, List.append_nil] at alone
  rw [written] at front ⊢
  rw [lines, ← same]
  exact ⟨rfl, read_of_isPrefix back front⟩

/-- A log that ends within a character of the second batch, whose first command is whole.
Only the first batch is read, though an end tag stands among its paths as well. -/
theorem read_cut_within_character :
    let stack : List Batch := [
      { kind := .rename, tag := "one file", stamp := some ⟨⟨1700000000, 0⟩, 3600⟩, commands :=
        [.rename (.ofString "/a\" -> \"b") (.ofString "/c\n<END OF BATCH>\n")] },
      { kind := .rename, commands :=
        [.rename (.ofString "/d") (.ofString "/e"), .rename (.ofString "/f") (.ofString "/é")] }]
    let cut := (Text.encode (write stack).text).take 132
    cut.getLast? = some 0xC3 ∧ read cut = (kept stack).take 1 := by
  intro stack cut
  have regular : ∀ b ∈ stack, b.isRecorded = true → b.IsRegular := by
    have stamp : (Time.Stamp.mk ⟨1700000000, 0⟩ 3600).IsRegular :=
      ⟨⟨by decide, .inl (by decide)⟩, by decide, by decide⟩
    have texts : ∀ a b : String, (Command.rename (.ofString a) (.ofString b)).IsRegular :=
      fun a b => ⟨⟨a, rfl⟩, b, rfl⟩
    refine List.forall_mem_cons.2 ⟨fun _ => ?_, List.forall_mem_singleton.2 fun _ => ?_⟩
    · refine ⟨by decide, List.forall_mem_singleton.2 (texts _ _), ?_⟩
      intro s same
      rwa [← Option.some.inj same]
    · refine ⟨by decide, ?_, nofun⟩
      exact List.forall_mem_cons.2 ⟨texts _ _, List.forall_mem_singleton.2 (texts _ _)⟩
  have left : endTagsWithin cut.length (Text.linesOf '\n' (write stack).text) = 1 := by
    decide +kernel
  obtain ⟨-, same⟩ := read_cut regular (List.take_prefix 132 _)
  refine ⟨by decide +kernel, ?_⟩
  rw [same, left]

end Renumber.UndoLog
