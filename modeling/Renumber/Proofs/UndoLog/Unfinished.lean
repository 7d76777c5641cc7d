import Renumber.Proofs.UndoLog.Cut

/-!
# Logs that end at a fault

A command that cannot be written ends the log in the middle of its batch. What was written of
that batch closes nothing, so a log that ends at a fault reads like the log of the batches
before, whatever else the stack holds.
-/

namespace Renumber.UndoLog

open Renumber.Text (ended)

variable {b : Batch} {bs stack : List Batch} {c : Command} {text : List Char}

/-- The batch is written to its end. -/
def isWritable (b : Batch) : Bool :=
  (writeBatch b).fault.isNone

/-- The batches of a stack that come to stand in its log: those that are written, up to the
first with a command that cannot be. -/
def writable (stack : List Batch) : List Batch :=
  (stack.filter isWritten).takeWhile isWritable

/-- What is read of a stack that was written. -/
def reread (stack : List Batch) : List Batch :=
  read (Text.encode (write stack).text)

theorem isWritable_iff : isWritable b = true ↔ CanWrite b.commands := by
  rw [isWritable, Option.isNone_iff_eq_none]
  refine ⟨canWrite_of_batch, fun each => ?_⟩
  rw [writeBatch_of_canWrite each]

theorem canWrite_of_writable (member : b ∈ writable stack) :
    isWritten b = true ∧ CanWrite b.commands :=
  ⟨(List.mem_filter.1 ((List.takeWhile_sublist _).subset member)).2,
    isWritable_iff.1 (List.mem_takeWhile_imp member)⟩

/-- The batches before the first fault are written to their end. -/
theorem write_writable (stack : List Batch) :
    write (writable stack) = ⟨ended '\n' (stackLines (writable stack)), none⟩ := by
  have all : (writable stack).filter isWritten = writable stack :=
    List.filter_eq_self.2 fun b member => (canWrite_of_writable member).1
  rw [write, all]
  exact writeBatches_of_canWrite fun b member => (canWrite_of_writable member).2

/-- Edits make no difference to the log of a stack. -/
theorem reread_filter (stack : List Batch) : reread (stack.filter Batch.isRecorded) = reread stack := by
  have same : (stack.filter Batch.isRecorded).filter isWritten = stack.filter isWritten := by
    rw [List.filter_filter]
    refine List.filter_congr fun b _ => ?_
    rw [isWritten]
    cases b.isRecorded <;> simp
  rw [reread, reread, write, write, same]

/-- Without a fault there is nothing else. -/
theorem writable_of_fault (whole : (write stack).fault = none) :
    writable stack = stack.filter isWritten := by
  refine List.takeWhile_eq_self_iff.2 fun b member => ?_
  exact isWritable_iff.2 ((fault_writeBatches _).1 whole b member)

/-! ## What is written of a batch -/

/-- A command that has a line is one on files, and the paths that it names are text. -/
theorem isSpelled_of_commandText (written : commandText c = .ok text) : c.IsSpelled := by
  cases c with
  | rename source target => exact isText_of_commandText written
  | touch former target =>
      have text_of : ∀ {s : FileState} {v : Json}, s.toJson = .ok v → s.path.IsText := by
        intro s v made
        cases spelled : s.path.toString? with
        | none =>
            rw [FileState.toJson, spelled] at made
            cases made
        | some path => exact Path.isText_of_toString? spelled
      rw [commandText] at written
      cases first : former.toJson with
      | error fault =>
          rw [first] at written
          cases written
      | ok v =>
          cases second : target.toJson with
          | error fault =>
              rw [first, second] at written
              cases written
          | ok v' => exact ⟨text_of first, text_of second⟩
  | _ => cases written

/-- A command has a line exactly when it is one on files and the paths that it names are text. -/
theorem isSpelled_iff_commandText : c.IsSpelled ↔ ∃ text, commandText c = .ok text := by
  constructor
  · intro spelled
    cases c with
    | rename source target =>
        obtain ⟨⟨a, rfl⟩, b, rfl⟩ := spelled
        exact ⟨_, commandText_rename a b⟩
    | touch former target =>
        obtain ⟨⟨a, source⟩, b, other⟩ := spelled
        exact ⟨_, commandText_touch source other⟩
    | _ => exact spelled.elim
  · rintro ⟨text, written⟩
    exact isSpelled_of_commandText written

/-- A stack is written to its end exactly when that is so for all commands of the batches that are
written. -/
theorem fault_write_iff (stack : List Batch) :
    (write stack).fault = none ↔ ∀ b ∈ stack.filter isWritten, ∀ c ∈ b.commands, c.IsSpelled := by
  rw [write, fault_writeBatches]
  simp only [CanWrite, isSpelled_iff_commandText]

/-- A batch of one command is written to its end exactly when that is so for the command. -/
theorem fault_write_alone (recorded : c.isRecorded = true) :
    (write [{ kind := c.kind, commands := [c] }]).fault = none ↔ c.IsSpelled := by
  have written : isWritten { kind := c.kind, commands := [c] } = true :=
    Bool.and_eq_true_iff.2 ⟨recorded, rfl⟩
  rw [fault_write_iff, List.filter_cons_of_pos written, List.filter_nil, List.forall_mem_singleton,
    List.forall_mem_singleton]

theorem isEntry_of_commandText (written : commandText c = .ok text) : IsEntry text := by
  have spelled := isSpelled_of_commandText written
  cases c with
  | rename source target =>
      obtain ⟨⟨a, rfl⟩, b, rfl⟩ := spelled
      rw [commandText_rename] at written
      cases written
      exact isEntry_rename a b
  | touch former target =>
      obtain ⟨⟨a, source⟩, b, other⟩ := spelled
      rw [commandText_touch source other] at written
      cases written
      exact isEntry_touch former target a b
  | _ => exact spelled.elim

/-- A batch that is written to its end is read back, if there are dates for its times. -/
theorem isDated_of_canWrite (kinds : ∀ c ∈ b.commands, c.kind = b.kind) (can : CanWrite b.commands)
    (dates : b.HasDates) : b.IsDated := by
  refine ⟨kinds, fun c member => ?_, dates.stamp⟩
  obtain ⟨text, written⟩ := can c member
  exact (isSpelled_of_commandText written).dated (dates.commands c member)

/-- A line that closes no batch. -/
def Idle (s : List Char) : Prop :=
  '\n' ∉ s ∧ Harmless s

theorem idle_header (recorded : b.isRecorded = true) : Idle (header b) :=
  ⟨newline_not_mem_header b, harmless_header recorded⟩

theorem idle_of_commandText (written : commandText c = .ok text) : Idle text :=
  ⟨(isEntry_of_commandText written).one_line, harmless_entry (isEntry_of_commandText written)⟩

theorem writeCommands_idle (cs : List Command) :
    ∃ lines, (writeCommands cs).text = ended '\n' lines ∧ ∀ s ∈ lines, Idle s := by
  induction cs with
  | nil => exact ⟨[], rfl, List.forall_mem_nil _⟩
  | cons c rest ih =>
      rw [writeCommands]
      split
      · next text written =>
        obtain ⟨lines, same, idle⟩ := ih
        refine ⟨text :: lines, ?_, List.forall_mem_cons.2 ⟨idle_of_commandText written, idle⟩⟩
        rw [Written.after, same, line_append, Text.ended_cons]
      · exact ⟨[], rfl, List.forall_mem_nil _⟩

/-- A batch that is not written to its end leaves lines that close nothing. -/
theorem writeBatch_idle (recorded : b.isRecorded = true) (broken : ¬CanWrite b.commands) :
    ∃ lines, (writeBatch b).text = ended '\n' lines ∧ ∀ s ∈ lines, Idle s := by
  obtain ⟨lines, same, idle⟩ := writeCommands_idle b.commands
  refine ⟨header b :: lines, ?_, List.forall_mem_cons.2 ⟨idle_header recorded, idle⟩⟩
  cases fault : (writeCommands b.commands).fault with
  | none => exact absurd (canWrite_of_fault fault) broken
  | some _ =>
      rw [writeBatch, Written.andThen, fault, Written.after, same, line_append, Text.ended_cons]

/-! ## What is written of a stack -/

/-- Behind the batches before the first fault there are only lines that close nothing. -/
theorem writeBatches_idle (recorded : ∀ b ∈ bs, b.isRecorded = true) :
    ∃ lines, (writeBatches bs).text = ended '\n' (stackLines (bs.takeWhile isWritable) ++ lines) ∧
      ∀ s ∈ lines, Idle s := by
  induction bs with
  | nil => exact ⟨[], rfl, List.forall_mem_nil _⟩
  | cons b rest ih =>
      obtain ⟨own, others⟩ := List.forall_mem_cons.1 recorded
      by_cases can : CanWrite b.commands
      · rw [List.takeWhile_cons_of_pos (isWritable_iff.2 can)]
        cases rest with
        | nil =>
            refine ⟨[], ?_, List.forall_mem_nil _⟩
            rw [writeBatches, writeBatch_of_canWrite can, List.append_nil]
            rfl
        | cons next rest =>
            obtain ⟨lines, same, idle⟩ := ih others
            have text : (writeBatches (b :: next :: rest)).text = ended '\n' (batchLines b ++
                [] :: (stackLines ((next :: rest).takeWhile isWritable) ++ lines)) := by
              rw [writeBatches_cons_cons, writeBatch_of_canWrite can, Text.ended_append,
                Text.ended_cons, ← same]
              rfl
            rw [text]
            cases (next :: rest).takeWhile isWritable with
            | nil =>
                refine ⟨[] :: lines, rfl, ?_⟩
                exact List.forall_mem_cons.2 ⟨⟨List.not_mem_nil, harmless_nil⟩, idle⟩
            | cons next' whole =>
                refine ⟨lines, ?_, idle⟩
                rw [stackLines_cons_cons, List.append_assoc, List.cons_append]
      · have broken : ¬isWritable b = true := mt isWritable_iff.1 can
        obtain ⟨lines, same, idle⟩ := writeBatch_idle own can
        refine ⟨lines, ?_, idle⟩
        rw [List.takeWhile_cons_of_neg broken, stackLines, List.nil_append, ← same]
        cases rest with
        | nil => rfl
        | cons next rest =>
            rw [writeBatches_cons_cons, Written.andThen]
            split
            · next none_left => exact absurd (Option.isNone_iff_eq_none.2 none_left) broken
            · rfl

theorem newline_not_mem_writable : ∀ s ∈ stackLines (writable stack), '\n' ∉ s := by
  have batch : ∀ {b}, CanWrite b.commands → ∀ s ∈ batchLines b, '\n' ∉ s := by
    intro b each s member
    rw [batchLines, List.mem_cons, List.mem_append, List.mem_map, List.mem_singleton] at member
    obtain rfl | ⟨c, inside, rfl⟩ | rfl := member
    · exact newline_not_mem_header b
    · obtain ⟨text, written⟩ := each c inside
      rw [lineOf, written]
      exact (isEntry_of_commandText written).one_line
    · decide
  have each : ∀ b ∈ writable stack, CanWrite b.commands := fun b member => (canWrite_of_writable member).2
  generalize writable stack = bs at each
  induction bs with
  | nil => exact List.forall_mem_nil _
  | cons b rest ih =>
      obtain ⟨own, others⟩ := List.forall_mem_cons.1 each
      cases rest with
      | nil => exact batch own
      | cons next rest =>
          rw [stackLines_cons_cons, List.forall_mem_append, List.forall_mem_cons]
          exact ⟨batch own, List.not_mem_nil, ih others⟩

/-- Lines that close nothing make no difference at the end of a log. -/
theorem read_ended_append {whole lines : List (List Char)} (one_line : ∀ s ∈ whole, '\n' ∉ s)
    (idle : ∀ s ∈ lines, Idle s) : read (Text.encode (ended '\n' (whole ++ lines))) =
      read (Text.encode (ended '\n' whole)) := by
  have split : ∀ {lines : List (List Char)}, (∀ s ∈ lines, '\n' ∉ s) →
      Text.linesOf '\n' (ended '\n' lines) = lines := by
    intro lines one_line
    have alone := Text.linesOf_ended_append one_line []
    rwa [List.append_nil, Text.linesOf_nil, List.append_nil] at alone
  have all : ∀ s ∈ whole ++ lines, '\n' ∉ s :=
    List.forall_mem_append.2 ⟨one_line, fun s member => (idle s member).1⟩
  rw [read, read, readAll_encode, readAll_encode, split all, split one_line, List.foldl_append]
  exact stack_foldl (fun s member => (idle s member).2) _

/-- Whether or not the log of a stack ends at a fault, what is read of it is what is read of the
batches before the first fault. -/
theorem reread_writable (stack : List Batch) : reread (writable stack) = reread stack := by
  have recorded : ∀ b ∈ stack.filter isWritten, b.isRecorded = true := fun b member =>
    (Bool.and_eq_true_iff.1 (List.mem_filter.1 member).2).1
  obtain ⟨lines, same, idle⟩ := writeBatches_idle recorded
  have text : (write stack).text = ended '\n' (stackLines (writable stack) ++ lines) := same
  rw [reread, reread, write_writable, text]
  exact (read_ended_append newline_not_mem_writable idle).symm

/-- These batches are read back themselves, without their tags, if their commands are of their
kind and there are dates for their times. -/
theorem reread_of_dated (dated : ∀ b ∈ writable stack, b.IsDated) :
    reread stack = (writable stack).map untagged := by
  have all : (writable stack).filter isWritten = writable stack :=
    List.filter_eq_self.2 fun b member => (canWrite_of_writable member).1
  obtain ⟨-, back⟩ := read_write_of_dated fun b member _ => dated b member
  rw [← reread_writable, reread, back, kept, all]

end Renumber.UndoLog
