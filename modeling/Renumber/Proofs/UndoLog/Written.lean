import Renumber.Proofs.Text.Lines
import Renumber.UndoLog.Writer

/-!
# What is written to a log

A log is made of ended lines. It is written to its end exactly when each command in it
has a line of its own; such a batch is written as its header, these lines and the end tag.
-/

namespace Renumber.UndoLog

open Renumber.Text (ended)

/-- The line of a command that can be written. -/
def lineOf (c : Command) : List Char :=
  (commandText c).toOption.getD []

/-- All commands can be written. -/
def CanWrite (cs : List Command) : Prop :=
  ∀ c ∈ cs, ∃ text, commandText c = .ok text

/-- The lines of a batch. -/
def batchLines (b : Batch) : List (List Char) :=
  header b :: (b.commands.map lineOf ++ [endTag])

/-- The lines of batches, with an empty one between two of them. -/
def stackLines : List Batch → List (List Char)
  | [] => []
  | [b] => batchLines b
  | b :: rest => batchLines b ++ [] :: stackLines rest

theorem stackLines_cons_cons (b next : Batch) (rest : List Batch) :
    stackLines (b :: next :: rest) = batchLines b ++ [] :: stackLines (next :: rest) := rfl

theorem writeBatches_cons_cons (b next : Batch) (rest : List Batch) :
    writeBatches (b :: next :: rest) =
      (writeBatch b).andThen ((writeBatches (next :: rest)).after ['\n']) := rfl

theorem line_append (s t : List Char) : line s ++ t = s ++ '\n' :: t := by
  rw [line, List.append_assoc]
  rfl

theorem writeCommands_of_canWrite {cs : List Command} (each : CanWrite cs) :
    writeCommands cs = ⟨ended '\n' (cs.map lineOf), none⟩ := by
  induction cs with
  | nil => rfl
  | cons c rest ih =>
      rw [CanWrite, List.forall_mem_cons] at each
      obtain ⟨⟨text, written⟩, others⟩ := each
      have text_of : lineOf c = text := by
        rw [lineOf, written]
        rfl
      rw [writeCommands, written, ih others]
      simp only [Written.after, line_append, List.map_cons, Text.ended_cons, text_of]

theorem canWrite_of_fault {cs : List Command} (whole : (writeCommands cs).fault = none) :
    CanWrite cs := by
  induction cs with
  | nil =>
      intro c member
      cases member
  | cons c rest ih =>
      rw [writeCommands] at whole
      split at whole
      · next text written =>
        rw [CanWrite, List.forall_mem_cons]
        exact ⟨⟨text, written⟩, ih whole⟩
      · cases whole

theorem writeBatch_of_canWrite {b : Batch} (each : CanWrite b.commands) :
    writeBatch b = ⟨ended '\n' (batchLines b), none⟩ := by
  rw [writeBatch, writeCommands_of_canWrite each]
  simp only [Written.andThen, Written.after, batchLines, Text.ended_cons, Text.ended_append,
    Text.ended_nil, line, List.append_assoc, List.cons_append, List.nil_append]

theorem canWrite_of_batch {b : Batch} (whole : (writeBatch b).fault = none) :
    CanWrite b.commands := by
  apply canWrite_of_fault
  rw [writeBatch, Written.after, Written.andThen] at whole
  split at whole
  · next written => exact written
  · next fault written => exact whole

/-- Batches are written to the end exactly when all their commands can be. -/
theorem fault_writeBatches (bs : List Batch) :
    (writeBatches bs).fault = none ↔ ∀ b ∈ bs, CanWrite b.commands := by
  induction bs with
  | nil => simp [writeBatches]
  | cons b rest ih =>
      rw [List.forall_mem_cons]
      cases rest with
      | nil =>
          rw [writeBatches]
          refine ⟨fun whole => ⟨canWrite_of_batch whole, by simp⟩, fun each => ?_⟩
          rw [writeBatch_of_canWrite each.1]
      | cons next rest =>
          rw [writeBatches_cons_cons]
          constructor
          · intro whole
            rw [Written.andThen] at whole
            split at whole
            · next written => exact ⟨canWrite_of_batch written, ih.1 whole⟩
            · next fault written =>
              rw [written] at whole
              cases whole
          · intro each
            rw [writeBatch_of_canWrite each.1]
            exact ih.2 each.2

theorem writeBatches_of_canWrite {bs : List Batch} (each : ∀ b ∈ bs, CanWrite b.commands) :
    writeBatches bs = ⟨ended '\n' (stackLines bs), none⟩ := by
  induction bs with
  | nil => rfl
  | cons b rest ih =>
      rw [List.forall_mem_cons] at each
      cases rest with
      | nil => exact writeBatch_of_canWrite each.1
      | cons next rest =>
          rw [writeBatches_cons_cons, writeBatch_of_canWrite each.1, ih each.2,
            stackLines_cons_cons, Text.ended_append, Text.ended_cons]
          rfl

/-- The newest batch is written last. -/
theorem stackLines_concat (older : List Batch) (b : Batch) :
    ∃ before, stackLines (older ++ [b]) = before ++ batchLines b := by
  induction older with
  | nil => exact ⟨[], rfl⟩
  | cons a older ih =>
      obtain ⟨before, lines⟩ := ih
      refine ⟨batchLines a ++ [] :: before, ?_⟩
      obtain ⟨next, rest, some_batch⟩ : ∃ next rest, older ++ [b] = next :: rest :=
        List.exists_cons_of_ne_nil (by simp)
      rw [List.cons_append, some_batch, stackLines_cons_cons, ← some_batch, lines,
        List.append_assoc, List.cons_append]

/-- A log that is written to its end is made of the lines of its batches. -/
theorem write_of_fault {stack : List Batch} (whole : (write stack).fault = none) :
    (write stack).text = ended '\n' (stackLines (stack.filter isWritten)) ∧
      ∀ b ∈ stack.filter isWritten, CanWrite b.commands := by
  have each := (fault_writeBatches _).1 whole
  rw [write, writeBatches_of_canWrite each]
  exact ⟨rfl, each⟩

theorem fault_write {stack : List Batch} (each : ∀ b ∈ stack, CanWrite b.commands) :
    (write stack).fault = none :=
  (fault_writeBatches _).2 fun b member => each b (List.mem_of_mem_filter member)

end Renumber.UndoLog
