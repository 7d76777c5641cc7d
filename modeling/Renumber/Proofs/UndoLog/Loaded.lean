import Renumber.Proofs.Time.Known
import Renumber.Proofs.UndoLog.States

/-!
# Batches from a log

Whatever bytes a log holds, every batch that is read from it is recorded, is not empty, has
commands of its kind, and can be written and read again: its paths are text, there are dates
for the times of its states, and its stamp has a year of four digits.
-/

namespace Renumber

open Renumber.Time (Instant)

namespace FileState

theorem isText_of_path? {v : Json} {p : Path} (read : path? v = some p) : p.IsText := by
  cases v with
  | text s =>
      cases read
      exact ⟨s, rfl⟩
  | _ => cases read

theorem isShown_of_time? {v : Json} {t : Option Instant} (read : optional time? v = some t) :
    ∀ i, t = some i → i.IsShown 0 := by
  rintro i rfl
  cases v with
  | text s =>
      obtain ⟨j, time, made⟩ := Option.map_eq_some_iff.1 read
      cases made
      exact Time.isShown_of_readInstant? time
  | null => cases read
  | _ => cases read

/-- A state that is read has dates, however its fields are given. -/
theorem isDated_of_ofJson? {v : Json} {s : FileState} (read : ofJson? v = some s) : s.IsDated := by
  have values : ∀ {a b c d e f : Json}, ofValues? a b c d e f = some s → s.IsDated := by
    intro a b c d e f read
    simp only [ofValues?, Option.bind_eq_bind, Option.bind_eq_some_iff] at read
    obtain ⟨path, at_path, _, -, modified, at_modified, created, at_created, accessed, at_accessed,
      _, -, made⟩ := read
    cases made
    refine ⟨isText_of_path? at_path, fun t known => ?_⟩
    obtain known | known | known := known
    · exact isShown_of_time? at_modified t known
    · exact isShown_of_time? at_created t known
    · exact isShown_of_time? at_accessed t known
  rw [ofJson?.eq_def] at read
  split at read
  · exact values read
  · exact values read
  · exact values read
  · cases read

end FileState

namespace UndoLog

/-- A recorded batch without a tag and with commands of its kind that can be written and read. -/
structure Loaded (b : Batch) : Prop where
  recorded : b.isRecorded = true
  some_command : b.commands ≠ []
  untagged : b.tag = ""
  dated : b.IsDated

theorem Loaded.writable {b : Batch} (loaded : Loaded b) : CanWrite b.commands :=
  canWrite_of_dated loaded.dated

theorem Loaded.kinds {b : Batch} (loaded : Loaded b) : ∀ c ∈ b.commands, c.kind = b.kind :=
  loaded.dated.kinds

/-- A command that is read has dates, and has the kind it was read as. -/
theorem isDated_of_command? {kind : CommandKind} {s : List Char} {c : Command}
    (read : command? kind s = some c) : c.IsDated ∧ c.kind = kind := by
  simp only [command?, Option.bind_eq_bind, Option.bind_eq_some_iff] at read
  obtain ⟨⟨before, after⟩, -, read⟩ := read
  cases kind with
  | rename =>
      simp only [Option.bind_eq_some_iff] at read
      obtain ⟨source, at_source, target, at_target, made⟩ := read
      cases made
      exact ⟨⟨FileState.isText_of_path? at_source, FileState.isText_of_path? at_target⟩, rfl⟩
  | touch =>
      simp only [Option.bind_eq_some_iff] at read
      obtain ⟨former, at_former, target, at_target, made⟩ := read
      cases made
      exact ⟨⟨FileState.isDated_of_ofJson? at_former, FileState.isDated_of_ofJson? at_target⟩, rfl⟩
  | _ => cases read

/-- A header that is read names a kind that is recorded, and its stamp can be written. -/
theorem known_of_header? {s : List Char} {kind : CommandKind} {stamp : Option Time.Stamp}
    (read : header? s = some (.known kind stamp)) :
    kind.isRecorded = true ∧ ∀ at_time, stamp = some at_time → at_time.IsRegular := by
  rw [header?] at read
  simp only [Option.bind_eq_bind, Option.bind_eq_some_iff] at read
  obtain ⟨inner, -, read⟩ := read
  split at read
  · next key count rest same =>
    obtain ⟨_, -, read⟩ := Option.bind_eq_some_iff.1 read
    split at read
    · next known kept =>
      cases read
      refine ⟨(Option.filter_eq_some_iff.1 kept).2, fun at_time given => ?_⟩
      obtain ⟨text, -, time⟩ := Option.bind_eq_some_iff.1 given
      exact Time.isRegular_of_readStamp? time
    · cases read
  · cases read

/-- What holds of the reader between lines: what it holds of a batch would be one without a tag
that can be written, if there were a command in it. -/
def Sound (r : ReadState) : Prop :=
  (∀ b ∈ r.stack, Loaded b) ∧
    ∀ kind stamp commands, r.reading = .inside kind stamp commands →
      kind.isRecorded = true ∧ Batch.IsDated { kind, stamp, commands }

theorem Sound.closeBatch {r : ReadState} (sound : Sound r) : Sound (closeBatch r) := by
  rw [UndoLog.closeBatch]
  split
  · next kind stamp commands inside =>
    obtain ⟨recorded, dated⟩ := sound.2 _ _ _ inside
    split
    · exact ⟨sound.1, fun _ _ _ same => by cases same⟩
    · next some_command =>
      refine ⟨fun b member => ?_, fun _ _ _ same => by cases same⟩
      rw [List.mem_append, List.mem_singleton] at member
      obtain earlier | rfl := member
      · exact sound.1 b earlier
      · exact ⟨recorded, by simpa using some_command, rfl, dated⟩
  · exact ⟨sound.1, fun _ _ _ same => by cases same⟩

theorem Sound.readLine {r : ReadState} (sound : Sound r) (s : List Char) : Sound (readLine r s) := by
  rw [UndoLog.readLine]
  split
  · exact sound
  split
  · exact sound.closeBatch
  split
  · next kind stamp header =>
    refine ⟨sound.1, fun _ _ _ same => ?_⟩
    cases same
    obtain ⟨recorded, regular⟩ := known_of_header? header
    exact ⟨recorded, List.forall_mem_nil _, List.forall_mem_nil _, regular⟩
  · exact ⟨sound.1, fun _ _ _ same => by cases same⟩
  · split
    · next kind stamp commands inside =>
      split
      · next c read =>
        refine ⟨sound.1, fun _ _ _ same => ?_⟩
        cases same
        obtain ⟨recorded, dated⟩ := sound.2 _ _ _ inside
        obtain ⟨own, own_kind⟩ := isDated_of_command? read
        refine ⟨recorded, ?_, ?_, dated.stamp⟩
        · exact List.forall_mem_append.2 ⟨dated.kinds, List.forall_mem_singleton.2 own_kind⟩
        · exact List.forall_mem_append.2 ⟨dated.commands, List.forall_mem_singleton.2 own⟩
      · exact sound
    · exact sound

theorem Sound.readLines {r : ReadState} (sound : Sound r) (lines : List (List UInt8)) :
    Sound (readLines r lines).1 := by
  induction lines generalizing r with
  | nil => exact sound
  | cons s lines ih =>
      rw [UndoLog.readLines]
      split
      · exact ih (sound.readLine _)
      · exact sound

/-- Every batch that is read from any bytes is recorded and not empty, and its commands are of its
kind and can be written and read. -/
theorem loaded_of_readAll {bytes : List UInt8} {b : Batch} (member : b ∈ (readAll bytes).1) :
    Loaded b := by
  have start : Sound ⟨[], .outside⟩ :=
    ⟨fun b member => (List.not_mem_nil member).elim, fun _ _ _ same => by cases same⟩
  exact (start.readLines _).1 b member

end UndoLog

end Renumber
