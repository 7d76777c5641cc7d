import Renumber.Proofs.Json.Quoted
import Renumber.Proofs.Time.Reading
import Renumber.Proofs.UndoLog.Written
import Renumber.UndoLog.Reader

/-!
# What is read from a log

The lines of a batch lead the reader from any state to one outside of batches, with that
batch on the stack. So the newest batch of a log is read back whatever stands before it,
and what is read from any bytes at all can be written again.
-/

namespace Renumber.UndoLog

open Renumber.Text (ended isBlank trim words)
open Renumber.Time (Stamp readStamp?)

/-! ## Headers -/

/-- The stamp that is read from the header of a batch. -/
def stampRead (b : Batch) : Option Stamp :=
  b.stamp.bind fun stamp => readStamp? stamp.text.toList

/-- A batch as it is read: its tag is not written. -/
def asRead (b : Batch) : Batch :=
  { b with tag := "", stamp := stampRead b }

theorem unwrap?_wrapped (first last : Char) (s : List Char) :
    unwrap? first last (first :: (s ++ [last])) = some s := by
  simp [unwrap?]

/-- The count of a header in its brackets. -/
def countText (b : Batch) : List Char :=
  '[' :: (Nat.toDigits 10 b.size ++ [']'])

theorem isWord_countText (b : Batch) : ∀ c ∈ countText b, isBlank c = false := by
  intro c member
  rw [countText, List.mem_cons, List.mem_append, List.mem_singleton] at member
  obtain rfl | digit | rfl := member
  · decide
  · exact Time.isBlank_of_isDigit (Nat.isDigit_of_mem_toDigits (by decide) (by decide) digit)
  · decide

theorem isWord_key (kind : CommandKind) : ∀ c ∈ kind.key.toList, isBlank c = false := by
  show Time.IsWord kind.key
  cases kind <;> decide

theorem key_ne_nil (kind : CommandKind) : kind.key.toList ≠ [] := by
  cases kind <;> decide

theorem ofKey?_key (kind : CommandKind) : CommandKind.ofKey? kind.key = some kind := by
  cases kind <;> decide

/-- The stamp of a header, with a blank in front. -/
def stampText (b : Batch) : List Char :=
  match b.stamp with
  | some stamp => ' ' :: stamp.text.toList
  | none => []

theorem header_eq (b : Batch) :
    header b = '<' :: ((b.kind.key.toList ++ ' ' :: (countText b ++ stampText b)) ++ ['>']) := by
  rw [header, countText, stampText]
  cases b.stamp <;> simp

/-- The words after the kind in a header. -/
theorem words_count_stamp (b : Batch) :
    words (countText b ++ stampText b) =
      countText b :: (b.stamp.map fun stamp => stamp.text.toList).toList := by
  have some_char : countText b ≠ [] := by simp [countText]
  rw [stampText]
  cases b.stamp with
  | none =>
      rw [List.append_nil]
      exact Text.words_word some_char (isWord_countText b)
  | some stamp =>
      simp only
      rw [Text.words_append some_char (isWord_countText b) (by decide)]
      rw [Text.words_word (Time.stamp_ne_nil stamp) (Time.isWord_stamp stamp)]
      rfl

/-- A header is read as one. -/
theorem header?_header {b : Batch} (recorded : b.isRecorded = true) :
    header? (header b) = some (.known b.kind (stampRead b)) := by
  have key : CommandKind.ofKey? (String.ofList b.kind.key.toList) = some b.kind := by
    rw [String.ofList_toList, ofKey?_key]
  have count : unwrap? '[' ']' (countText b) = some (Nat.toDigits 10 b.size) := unwrap?_wrapped ..
  have inner : words (b.kind.key.toList ++ ' ' :: (countText b ++ stampText b)) =
      b.kind.key.toList :: countText b :: (b.stamp.map fun stamp => stamp.text.toList).toList := by
    rw [Text.words_append (key_ne_nil b.kind) (isWord_key b.kind) (by decide), words_count_stamp]
  have kept : (some b.kind).filter CommandKind.isRecorded = some b.kind :=
    Option.filter_some_pos recorded
  rw [header_eq, header?, unwrap?_wrapped]
  simp only [Option.bind_eq_bind, Option.bind_some, inner, count, key, kept]
  rw [stampRead]
  cases b.stamp <;> rfl

theorem trim_header (b : Batch) : trim (header b) = header b := by
  rw [header_eq]
  refine Text.trim_of_ends (fun c first => ?_) (fun c last => ?_)
  · cases first
    decide
  · rw [← List.cons_append, List.getLast?_concat] at last
    cases last
    decide

theorem header_ne_endTag {b : Batch} (recorded : b.isRecorded = true) : header b ≠ endTag := by
  intro same
  have read := header?_header recorded
  rw [same] at read
  have unread : header? endTag = none := by decide
  rw [unread] at read
  cases read

/-- A header begins a batch, wherever the reader is. -/
theorem readLine_header {b : Batch} (recorded : b.isRecorded = true) (r : ReadState) :
    readLine r (header b) = ⟨r.stack, .inside b.kind (stampRead b) []⟩ := by
  have some_char : (header b).isEmpty = false := by
    rw [header_eq]
    rfl
  rw [readLine]
  simp only [trim_header, some_char, Bool.false_eq_true, ↓reduceIte, header_ne_endTag recorded,
    header?_header recorded]

/-! ## Commands -/

/-- The line of a command: it has no blanks at its ends and is neither a header nor an
end tag. -/
structure IsEntry (s : List Char) : Prop where
  first : ∃ c rest, s = c :: rest ∧ isBlank c = false ∧ c ≠ '<'
  last : ∀ c, s.getLast? = some c → isBlank c = false
  one_line : '\n' ∉ s

theorem readLine_entry {s : List Char} (entry : IsEntry s) {kind : CommandKind} {c : Command}
    (read : command? kind s = some c) (stack : List Batch) (stamp : Option Stamp)
    (commands : List Command) :
    readLine ⟨stack, .inside kind stamp commands⟩ s =
      ⟨stack, .inside kind stamp (commands ++ [c])⟩ := by
  obtain ⟨d, rest, shape, not_blank, not_tag⟩ := entry.first
  have trimmed : trim s = s := by
    refine Text.trim_of_ends (fun e first => ?_) entry.last
    rw [shape] at first
    cases first
    exact not_blank
  have some_char : s.isEmpty = false := by
    rw [shape]
    rfl
  have not_end : s ≠ endTag := by
    intro same
    rw [shape, show endTag = '<' :: "END OF BATCH>".toList by decide] at same
    exact not_tag (List.cons.inj same).1
  have not_header : header? s = none := by
    rw [header?, shape, unwrap?, if_neg (by simp [not_tag])]
    rfl
  rw [readLine]
  simp only [trimmed, some_char, Bool.false_eq_true, ↓reduceIte, not_end, not_header, read]

/-- A batch that is recorded and not empty, and whose commands are read from their lines. -/
structure ReadsBack (b : Batch) : Prop where
  recorded : b.isRecorded = true
  some_command : b.commands ≠ []
  entries : ∀ c ∈ b.commands, IsEntry (lineOf c) ∧ command? b.kind (lineOf c) = some c

theorem foldl_entries {kind : CommandKind} {cs : List Command}
    (entries : ∀ c ∈ cs, IsEntry (lineOf c) ∧ command? kind (lineOf c) = some c)
    (stack : List Batch) (stamp : Option Stamp) (front : List Command) :
    (cs.map lineOf).foldl readLine ⟨stack, .inside kind stamp front⟩ =
      ⟨stack, .inside kind stamp (front ++ cs)⟩ := by
  induction cs generalizing front with
  | nil => rw [List.append_nil]; rfl
  | cons c cs ih =>
      rw [List.forall_mem_cons] at entries
      rw [List.map_cons, List.foldl_cons, readLine_entry entries.1.1 entries.1.2, ih entries.2,
        List.append_assoc]
      rfl

theorem readLine_endTag (r : ReadState) : readLine r endTag = closeBatch r := by
  have trimmed : trim endTag = endTag := by decide
  have some_char : endTag.isEmpty = false := by decide
  rw [readLine]
  simp only [trimmed, some_char, Bool.false_eq_true, ↓reduceIte]

/-- The lines of a batch put it on the stack, wherever the reader was before. -/
theorem foldl_batchLines {b : Batch} (back : ReadsBack b) (r : ReadState) :
    (batchLines b).foldl readLine r = ⟨r.stack ++ [asRead b], .outside⟩ := by
  have some_command : b.commands.isEmpty = false := by simpa using back.some_command
  rw [batchLines, List.foldl_cons, readLine_header back.recorded, List.foldl_append,
    foldl_entries back.entries, List.nil_append, List.foldl_cons, readLine_endTag, closeBatch]
  simp only [some_command, Bool.false_eq_true, ↓reduceIte]
  rfl

/-! ## The newest batch -/

theorem newline_not_mem_header (b : Batch) : '\n' ∉ header b := by
  have blank : isBlank '\n' = true := by decide
  have not_word : ∀ s : List Char, (∀ c ∈ s, isBlank c = false) → '\n' ∉ s := by
    intro s word member
    rw [word _ member] at blank
    cases blank
  have stamp : '\n' ∉ stampText b := by
    rw [stampText]
    split
    · next stamp _ =>
      rw [List.mem_cons, not_or]
      exact ⟨by decide, not_word _ (Time.isWord_stamp stamp)⟩
    · exact List.not_mem_nil
  rw [header_eq]
  simp only [List.mem_cons, List.mem_append, not_or, List.not_mem_nil, not_false_eq_true, and_true]
  exact ⟨by decide, ⟨not_word _ (isWord_key b.kind), by decide, not_word _ (isWord_countText b), stamp⟩,
    by decide⟩

theorem newline_not_mem_batchLines {b : Batch} (back : ReadsBack b) :
    ∀ s ∈ batchLines b, '\n' ∉ s := by
  intro s member
  rw [batchLines, List.mem_cons, List.mem_append, List.mem_map, List.mem_singleton] at member
  obtain rfl | ⟨c, in_batch, rfl⟩ | rfl := member
  · exact newline_not_mem_header b
  · exact (back.entries c in_batch).1.one_line
  · decide

theorem readLines_encode (r : ReadState) (lines : List (List Char)) :
    readLines r (lines.map Text.encode) = (lines.foldl readLine r, false) := by
  induction lines generalizing r with
  | nil => rfl
  | cons s lines ih =>
      rw [List.map_cons, readLines, Text.decode?_encode]
      exact ih _

/-- The lines of a text are read one after the other, and none of them is broken. -/
theorem readAll_encode (s : List Char) :
    readAll (Text.encode s) =
      (((Text.linesOf '\n' s).foldl readLine ⟨[], .outside⟩).stack, false) := by
  have lines : Text.linesOf newline (Text.encode s) = (Text.linesOf '\n' s).map Text.encode :=
    Text.linesOf_encode s
  rw [readAll, lines, readLines_encode]

/-- The batch that was written last is on top of the stack that is read. -/
theorem readAll_concat {b : Batch} (back : ReadsBack b) (older : List (List Char)) :
    ∃ stack, readAll (Text.encode (ended '\n' (older ++ batchLines b))) =
      (stack ++ [asRead b], false) := by
  have last : Text.linesOf '\n' (ended '\n' (batchLines b)) = batchLines b := by
    have alone := Text.linesOf_ended_append (newline_not_mem_batchLines back) []
    rwa [List.append_nil, Text.linesOf_nil, List.append_nil] at alone
  rw [readAll_encode, Text.ended_append, Text.linesOf_append (Text.ended_whole '\n' older),
    last, List.foldl_append, foldl_batchLines back]
  exact ⟨_, rfl⟩

end Renumber.UndoLog
