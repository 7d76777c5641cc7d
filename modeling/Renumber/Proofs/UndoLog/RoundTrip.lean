import Renumber.Proofs.UndoLog.Loaded

/-!
# Logs in any surroundings

The header of a batch resets whatever state the reader is in, and the end tag of the last
batch leaves it outside of batches. So the batches of a log are read back in their order,
whatever text stands before the log and whatever bytes stand behind it.

A log may hold any bytes. Only what makes sense of it is read, and that is written to its end
and read back as it is, so reading, writing and reading again changes nothing more.
-/

namespace Renumber.UndoLog

open Renumber.Text (ended)

/-! ## The lines of a stack -/

theorem readLine_nil (r : ReadState) : readLine r [] = r :=
  rfl

/-- The lines of batches put them on the stack, wherever the reader was before. -/
theorem foldl_stackLines {bs : List Batch} (some_batch : bs ≠ []) (back : ∀ b ∈ bs, ReadsBack b)
    (r : ReadState) : (stackLines bs).foldl readLine r = ⟨r.stack ++ bs.map asRead, .outside⟩ := by
  induction bs generalizing r with
  | nil => exact absurd rfl some_batch
  | cons b rest ih =>
      obtain ⟨own, others⟩ := List.forall_mem_cons.1 back
      cases rest with
      | nil => exact foldl_batchLines own r
      | cons next rest =>
          rw [stackLines_cons_cons, List.foldl_append, foldl_batchLines own, List.foldl_cons,
            readLine_nil, ih (List.cons_ne_nil _ _) others, List.map_cons, List.append_assoc]
          rfl

theorem newline_not_mem_stackLines {bs : List Batch} (back : ∀ b ∈ bs, ReadsBack b) :
    ∀ s ∈ stackLines bs, '\n' ∉ s := by
  induction bs with
  | nil => exact fun s never => absurd never List.not_mem_nil
  | cons b rest ih =>
      obtain ⟨own, others⟩ := List.forall_mem_cons.1 back
      cases rest with
      | nil => exact newline_not_mem_batchLines own
      | cons next rest =>
          rw [stackLines_cons_cons, List.forall_mem_append, List.forall_mem_cons]
          exact ⟨newline_not_mem_batchLines own, List.not_mem_nil, ih others⟩

/-! ## What stands before and behind -/

/-- The batches that were read before stay at the bottom of the stack. -/
def ReadState.onTop (stack : List Batch) (r : ReadState) : ReadState :=
  ⟨stack ++ r.stack, r.reading⟩

theorem closeBatch_onTop (stack : List Batch) (r : ReadState) :
    closeBatch (r.onTop stack) = (closeBatch r).onTop stack := by
  obtain ⟨read, reading⟩ := r
  cases reading with
  | inside kind stamp commands =>
      cases commands with
      | nil => rfl
      | cons c commands =>
          show ReadState.mk ((stack ++ read) ++ [_]) .outside = ⟨stack ++ (read ++ [_]), .outside⟩
          rw [List.append_assoc]
  | outside => rfl
  | skipping => rfl

theorem readLine_onTop (stack : List Batch) (r : ReadState) (s : List Char) :
    readLine (r.onTop stack) s = (readLine r s).onTop stack := by
  rw [readLine, readLine]
  cases (Text.trim s).isEmpty with
  | true => rfl
  | false =>
      by_cases ends : Text.trim s = endTag
      · rw [if_neg Bool.false_ne_true, if_neg Bool.false_ne_true, if_pos ends, if_pos ends,
          closeBatch_onTop]
      · rw [if_neg Bool.false_ne_true, if_neg Bool.false_ne_true, if_neg ends, if_neg ends]
        cases header? (Text.trim s) with
        | some header => cases header <;> rfl
        | none =>
            obtain ⟨read, reading⟩ := r
            cases reading with
            | inside kind stamp commands =>
                dsimp only [ReadState.onTop]
                cases command? kind (Text.trim s) <;> rfl
            | outside => rfl
            | skipping => rfl

theorem readLines_onTop (stack : List Batch) (r : ReadState) (lines : List (List UInt8)) :
    readLines (r.onTop stack) lines = ((readLines r lines).1.onTop stack, (readLines r lines).2) := by
  induction lines generalizing r with
  | nil => rfl
  | cons line lines ih =>
      rw [readLines, readLines]
      cases Text.decode? line with
      | none => rfl
      | some s =>
          dsimp only
          rw [readLine_onTop, ih]

/-- Lines of text are read, and reading goes on behind them. -/
theorem readLines_encode_append (r : ReadState) (lines : List (List Char)) (back : List (List UInt8)) :
    readLines r (lines.map Text.encode ++ back) = readLines (lines.foldl readLine r) back := by
  induction lines generalizing r with
  | nil => rfl
  | cons s lines ih =>
      rw [List.map_cons, List.cons_append, readLines, Text.decode?_encode]
      exact ih _

/-- The bytes of a text that is empty or ends a line are empty or end a line. -/
theorem encode_whole {text : List Char} (whole : text = [] ∨ text.getLast? = some '\n') :
    Text.encode text = [] ∨ (Text.encode text).getLast? = some newline := by
  obtain rfl | last := whole
  · exact .inl rfl
  · obtain ⟨front, rfl⟩ := List.getLast?_eq_some_iff.1 last
    right
    rw [Text.encode_append, List.getLast?_append]
    rfl

/-- The stack that is read where a log stands behind a text and in front of any bytes. -/
theorem read_around {bs : List Batch} (some_batch : bs ≠ []) (back : ∀ b ∈ bs, ReadsBack b)
    {front : List Char} (whole : front = [] ∨ front.getLast? = some '\n') (rest : List UInt8) :
    read (Text.encode front ++ Text.encode (ended '\n' (stackLines bs)) ++ rest) =
      read (Text.encode front) ++ bs.map asRead ++ read rest := by
  have own : Text.linesOf '\n' (ended '\n' (stackLines bs)) = stackLines bs := by
    have alone := Text.linesOf_ended_append (newline_not_mem_stackLines back) []
    rwa [List.append_nil, Text.linesOf_nil, List.append_nil] at alone
  have lines : Text.linesOf newline
      (Text.encode front ++ (Text.encode (ended '\n' (stackLines bs)) ++ rest)) =
      (Text.linesOf '\n' front).map Text.encode ++ ((stackLines bs).map Text.encode ++
        Text.linesOf newline rest) := by
    have front_lines : Text.linesOf newline (Text.encode front) = _ := Text.linesOf_encode front
    have log_lines : Text.linesOf newline (Text.encode (ended '\n' (stackLines bs))) = _ :=
      Text.linesOf_encode _
    rw [Text.linesOf_append (encode_whole whole),
      Text.linesOf_append (encode_whole (Text.ended_whole '\n' (stackLines bs))), front_lines,
      log_lines, own]
  have stack : ∀ stack : List Batch, (⟨stack, .outside⟩ : ReadState) = ReadState.onTop stack ⟨[], .outside⟩ := by
    intro stack
    rw [ReadState.onTop, List.append_nil]
  rw [List.append_assoc, read, readAll, lines, readLines_encode_append, readLines_encode_append,
    foldl_stackLines some_batch back, stack, readLines_onTop, read, readAll_encode]
  rfl

/-! ## The round trip -/

/-- A batch without its tag, which logs do not keep. -/
def untagged (b : Batch) : Batch :=
  { b with tag := "" }

/-- What of a stack is written: the batches that are recorded and not empty, without tags. -/
def kept (stack : List Batch) : List Batch :=
  (stack.filter isWritten).map untagged

/-- A stack is written as its lines, and each of its batches is read back. -/
theorem write_dated {stack : List Batch} (dated : ∀ b ∈ stack, b.isRecorded = true → b.IsDated) :
    write stack = ⟨ended '\n' (stackLines (stack.filter isWritten)), none⟩ ∧
      (∀ b ∈ stack.filter isWritten, ReadsBack b) ∧
      (stack.filter isWritten).map asRead = kept stack := by
  have each : ∀ b ∈ stack.filter isWritten, isWritten b = true ∧ b.IsDated := by
    intro b member
    obtain ⟨inside, written⟩ := List.mem_filter.1 member
    exact ⟨written, dated b inside (Bool.and_eq_true_iff.1 written).1⟩
  refine ⟨writeBatches_of_canWrite fun b member => canWrite_of_dated (each b member).2,
    fun b member => readsBack_of_dated (each b member).1 (each b member).2, ?_⟩
  exact List.map_congr_left fun b member => asRead_of_dated (each b member).2

theorem write_regular {stack : List Batch} (regular : ∀ b ∈ stack, b.isRecorded = true → b.IsRegular) :
    write stack = ⟨ended '\n' (stackLines (stack.filter isWritten)), none⟩ ∧
      (∀ b ∈ stack.filter isWritten, ReadsBack b) ∧
      (stack.filter isWritten).map asRead = kept stack :=
  write_dated fun b member recorded => (regular b member recorded).dated

/-- A log that stands alone is read back. -/
theorem read_write_of_dated {stack : List Batch}
    (dated : ∀ b ∈ stack, b.isRecorded = true → b.IsDated) :
    (write stack).fault = none ∧ read (Text.encode (write stack).text) = kept stack := by
  obtain ⟨written, back, same⟩ := write_dated dated
  rw [written]
  refine ⟨rfl, ?_⟩
  rw [← same]
  cases some_written : stack.filter isWritten with
  | nil => rfl
  | cons b rest =>
      rw [some_written] at back
      have alone := read_around (List.cons_ne_nil b rest) back (.inl rfl) []
      rw [List.append_nil] at alone
      exact alone.trans (List.append_nil _)

theorem read_write {stack : List Batch} (regular : ∀ b ∈ stack, b.isRecorded = true → b.IsRegular) :
    (write stack).fault = none ∧ read (Text.encode (write stack).text) = kept stack :=
  read_write_of_dated fun b member recorded => (regular b member recorded).dated

/-- A log is written to its end, and is read back wherever it stands: behind any text that ends
its last line, whatever that text leaves open, and in front of any bytes. -/
theorem read_append_write {stack : List Batch}
    (regular : ∀ b ∈ stack, b.isRecorded = true → b.IsRegular) (some_batch : kept stack ≠ [])
    {front : List Char} (whole : front = [] ∨ front.getLast? = some '\n') (rest : List UInt8) :
    (write stack).fault = none ∧
      read (Text.encode front ++ Text.encode (write stack).text ++ rest) =
        read (Text.encode front) ++ kept stack ++ read rest := by
  obtain ⟨written, back, same⟩ := write_regular regular
  have some_written : stack.filter isWritten ≠ [] := by
    intro none
    rw [kept, none] at some_batch
    exact some_batch rfl
  rw [written]
  exact ⟨rfl, (read_around some_written back whole rest).trans (by rw [same])⟩

/-- A batch whose paths look like lines of a log, behind a batch that is left open and in front of
bytes that are no text. The edits are not written. -/
theorem read_append_write_untidy :
    let states := FileState.mk (.ofString "/é") ⟨1⟩ (some ⟨0, 5⟩) none none (some 0o444)
    let stack : List Batch := [
      { kind := .rename, tag := "two files", stamp := some ⟨⟨1700000000, 0⟩, 3600⟩, commands :=
        [.rename (.ofString "/a\" -> \"b") (.ofString "/c\n<END OF BATCH>\n")] },
      { kind := .redirect, commands := [.redirect []] },
      { kind := .touch, commands := [.touch states { states with mode := none }] }]
    read (Text.encode "<RENAME [1]>\n\"/x\" -> \"/y\"\n".toList ++
      Text.encode (write stack).text ++ [10, 255, 10]) = kept stack := by
  intro states stack
  have instant : ∀ t : Time.Instant, t = ⟨0, 5⟩ → t.IsRegular 0 := by
    rintro t rfl
    exact ⟨by decide, .inl (by decide)⟩
  have regular_state : ∀ mode, { states with mode }.IsRegular := by
    refine fun mode => ⟨⟨_, rfl⟩, ?_⟩
    rintro t (known | known | known)
    · exact instant t (Option.some.inj known).symm
    · cases known
    · cases known
  have regular : ∀ b ∈ stack, b.isRecorded = true → b.IsRegular := by
    have stamp : (Time.Stamp.mk ⟨1700000000, 0⟩ 3600).IsRegular :=
      ⟨⟨by decide, .inl (by decide)⟩, by decide, by decide⟩
    refine List.forall_mem_cons.2 ⟨fun _ => ?_, List.forall_mem_cons.2 ⟨nofun,
      List.forall_mem_singleton.2 fun _ => ?_⟩⟩
    · refine ⟨by decide, List.forall_mem_singleton.2 ⟨⟨_, rfl⟩, _, rfl⟩, ?_⟩
      rintro s same
      rwa [← Option.some.inj same]
    · exact ⟨by decide, List.forall_mem_singleton.2 ⟨regular_state _, regular_state _⟩, nofun⟩
  have before : read (Text.encode "<RENAME [1]>\n\"/x\" -> \"/y\"\n".toList) = [] := by
    decide +kernel
  have behind : read [10, 255, 10] = [] := by
    decide +kernel
  have whole : "<RENAME [1]>\n\"/x\" -> \"/y\"\n".toList.getLast? = some '\n' := by
    decide +kernel
  obtain ⟨-, same⟩ := read_append_write regular (List.cons_ne_nil _ _) (.inr whole) [10, 255, 10]
  rw [same, before, behind, List.append_nil, List.nil_append]

end Renumber.UndoLog

/-! ## What is read, written and read again -/

namespace Renumber

/-- The paths that a command on files names are text. -/
def Command.IsSpelled : Command → Prop
  | rename source target => source.IsText ∧ target.IsText
  | touch former target => former.path.IsText ∧ target.path.IsText
  | _ => False

theorem Command.IsDated.spelled {c : Command} (dated : c.IsDated) : c.IsSpelled := by
  cases c with
  | rename source target => exact dated
  | touch former target => exact ⟨dated.1.path, dated.2.path⟩
  | _ => exact dated.elim

/-- There are dates for the times that a state gives. -/
def FileState.HasDates (s : FileState) : Prop :=
  ∀ t, s.modified = some t ∨ s.created = some t ∨ s.accessed = some t → t.IsShown 0

/-- There are dates for the times of the states that a command names. -/
def Command.HasDates : Command → Prop
  | touch former target => former.HasDates ∧ target.HasDates
  | _ => True

/-- There are dates for all times of a batch, and its stamp has a year of four digits. -/
structure Batch.HasDates (b : Batch) : Prop where
  commands : ∀ c ∈ b.commands, c.HasDates
  stamp : ∀ s, b.stamp = some s → s.IsRegular

theorem Command.IsSpelled.dated {c : Command} (spelled : c.IsSpelled) (dates : c.HasDates) : c.IsDated := by
  cases c with
  | rename source target => exact spelled
  | touch former target => exact ⟨⟨spelled.1, dates.1⟩, spelled.2, dates.2⟩
  | _ => exact spelled.elim

theorem CommandKind.rename_or_touch {kind : CommandKind} (recorded : kind.isRecorded = true) :
    kind = .rename ∨ kind = .touch := by
  cases kind with
  | rename => exact .inl rfl
  | touch => exact .inr rfl
  | _ => cases recorded

namespace UndoLog

/-- All of a stack that was read is kept, just as it is. -/
theorem kept_read (bytes : List UInt8) : kept (read bytes) = read bytes := by
  have loaded : ∀ b ∈ read bytes, Loaded b := fun _ => loaded_of_readAll
  have written : (read bytes).filter isWritten = read bytes := by
    refine List.filter_eq_self.2 fun b member => ?_
    have some_command : b.isEmpty = false := List.isEmpty_eq_false_iff.2 (loaded b member).some_command
    rw [isWritten, (loaded b member).recorded, some_command]
    rfl
  have same : ∀ b ∈ read bytes, untagged b = id b := by
    intro b member
    obtain ⟨kind, tag, stamp, commands⟩ := b
    cases (loaded _ member).untagged
    rfl
  rw [kept, written, List.map_congr_left same, List.map_id]

/-- Whatever bytes a log holds, the batches that are read are batches of renames or of touches,
not empty, with commands of their own kind between paths that are text. They are written to the
end, and reading that gives the same batches again. -/
theorem read_write_read (bytes : List UInt8) :
    (∀ b ∈ read bytes, (b.kind = .rename ∨ b.kind = .touch) ∧ b.commands ≠ [] ∧
      ∀ c ∈ b.commands, c.kind = b.kind ∧ c.IsSpelled) ∧
    (write (read bytes)).fault = none ∧
    read (Text.encode (write (read bytes)).text) = read bytes := by
  have loaded : ∀ b ∈ read bytes, Loaded b := fun _ => loaded_of_readAll
  obtain ⟨whole, again⟩ := read_write_of_dated fun b member _ => (loaded b member).dated
  refine ⟨fun b member => ?_, whole, again.trans (kept_read bytes)⟩
  refine ⟨CommandKind.rename_or_touch (loaded b member).recorded, (loaded b member).some_command, ?_⟩
  intro c inside
  exact ⟨(loaded b member).kinds c inside, ((loaded b member).dated.commands c inside).spelled⟩

end UndoLog

end Renumber
