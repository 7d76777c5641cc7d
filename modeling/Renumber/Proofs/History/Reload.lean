import Renumber.Proofs.Disk.Within
import Renumber.Proofs.History.Stored
import Renumber.Proofs.UndoLog.RoundTrip
import Renumber.Proofs.World.Sample

/-!
# Histories in the next session

A history that was kept is loaded again: all its recorded batches, done and undone, in their
order and without their tags. Whatever the two logs held before does not matter, and an old
redo log is gone when there is nothing to redo. This holds on any disk, with links as well, as
long as the two logs can be read afterwards and are not one and the same file.
-/

namespace Renumber

open UndoLog (redoPath)

namespace World

variable {w w' : World} {p q : Path} {text : List UInt8} {id : Nat} {data : FileData}

/-- The number of the file that a path leads to. -/
def numberOf? (w : World) (p : Path) : Option Nat :=
  (w.disk.fileNumber w.cwd p).toOption

/-- The path leads to a file that its owner may read. -/
def Legible (w : World) (p : Path) : Prop :=
  ∃ id data, w.numberOf? p = some id ∧ w.disk.file? id = some data ∧
    data.stats.mode &&& Disk.ownerRead ≠ 0

theorem legible_iff : w.Legible p ↔ ((w.numberOf? p).bind w.disk.file?).any
    (fun data => data.stats.mode &&& Disk.ownerRead != 0) = true := by
  rw [Option.any_eq_true]
  simp only [Option.bind_eq_some_iff, bne_iff_ne]
  constructor
  · rintro ⟨id, data, leads, known, readable⟩
    exact ⟨data, ⟨id, leads, known⟩, readable⟩
  · rintro ⟨data, ⟨id, leads, known⟩, readable⟩
    exact ⟨id, data, leads, known, readable⟩

instance (w : World) (p : Path) : Decidable (w.Legible p) :=
  decidable_of_iff _ legible_iff.symm

theorem numberOf?_eq_some : w.numberOf? p = some id ↔ w.disk.fileNumber w.cwd p = .ok id := by
  rw [numberOf?]
  cases w.disk.fileNumber w.cwd p <;> simp [Except.toOption]

/-- A path leads to the same file when more stands on the disk. -/
theorem numberOf?_within (within : w.disk.Within w'.disk) (cwd : w'.cwd = w.cwd)
    (leads : w.numberOf? p = some id) : w'.numberOf? p = some id := by
  rw [numberOf?_eq_some] at leads ⊢
  rw [cwd]
  exact within.fileNumber leads

/-- Some bytes were stored at a path: whatever stood on the disk still stands there, and no
file changed but the one that the path leads to. -/
structure Stores (p : Path) (text : List UInt8) (w w' : World) : Prop where
  cwd : w'.cwd = w.cwd
  within : w.disk.Within w'.disk
  file : ∃ id, w'.numberOf? p = some id ∧
    (∀ data, w'.disk.file? id = some data → data.content = text) ∧
    ∀ other, other ≠ id → w'.disk.file? other = w.disk.file? other

theorem act_write_stores (written : (act (.write p text)).run.run w = (.ok (), w')) :
    Stores p text w w' := by
  obtain ⟨d, id, opened, rfl⟩ := act_write_eq_ok written
  obtain ⟨within, leads, others⟩ := Disk.openFile_within opened
  have writes := Disk.within_writeFile d w.clock id text
  refine ⟨rfl, within.trans writes, id, numberOf?_eq_some.2 (writes.fileNumber leads), ?_, ?_⟩
  · intro data known
    cases before : d.file? id with
    | none =>
        have still : (d.writeFile w.clock id text).file? id = none := by
          rw [Disk.writeFile, before]
          exact before
        cases still.symm.trans known
    | some old =>
        cases (Disk.file?_writeFile before w.clock text).symm.trans known
        rfl
  · intro other apart
    exact (Disk.file?_writeFile_of_ne d w.clock text apart).trans (others other apart)

/-- Bytes stay where they were stored when something else is stored. -/
theorem Stores.content_of_stores {u : World} {other : List UInt8} (first : Stores p text u w)
    (second : Stores q other w w') (leads : w'.numberOf? p = some id)
    (apart : w'.numberOf? p ≠ w'.numberOf? q) (known : w'.disk.file? id = some data) :
    data.content = text := by
  obtain ⟨id₁, leads₁, stored, -⟩ := first.file
  obtain ⟨id₂, leads₂, -, others⟩ := second.file
  have same := numberOf?_within second.within second.cwd leads₁
  rw [same] at leads apart
  obtain rfl := Option.some.inj leads
  rw [leads₂] at apart
  rw [others _ fun equal => apart (congrArg some equal)] at known
  exact stored data known

theorem Stores.content (stores : Stores p text w w') (leads : w'.numberOf? p = some id)
    (known : w'.disk.file? id = some data) : data.content = text := by
  obtain ⟨id', leads', stored, -⟩ := stores.file
  obtain rfl := Option.some.inj (leads'.symm.trans leads)
  exact stored data known

end World

namespace UndoLog

variable {log : Path} {stack : List Batch} {w w' : World} {id : Nat} {data : FileData}

theorem save_stores (saved : (save log stack).run.run w = (.ok (), w')) :
    World.Stores log (Text.encode (write stack).text) w w' := by
  have grows := (World.makeParent_growsToward log w).grows
  obtain ⟨u, made, written, -⟩ := save_eq_ok saved
  rw [made] at grows
  have stores := World.act_write_stores written
  obtain ⟨id, leads, stored, others⟩ := stores.file
  refine ⟨stores.cwd.trans grows.cwd, grows.disk.within.trans stores.within, id, leads, stored, ?_⟩
  intro other apart
  exact (others other apart).trans (grows.disk.file other)

/-- What a log holds is loaded, whatever the user was told before. -/
theorem load_of_legible (leads : w.numberOf? log = some id) (known : w.disk.file? id = some data)
    (readable : data.stats.mode &&& Disk.ownerRead ≠ 0) (notices : List String) :
    ∃ notices', (load log).run { w with notices } =
      (read data.content, { w with notices := notices' }) := by
  obtain ⟨loc, found⟩ := Disk.fileNumber_eq_ok.1 (World.numberOf?_eq_some.1 leads)
  have reaches : w.reaches log = true := Disk.reaches_of_fileNumber (World.numberOf?_eq_some.1 leads)
  have content : w.disk.readFile w.cwd log = .ok data.content := by
    rw [Disk.readFile, found]
    simp only [bind, Except.bind, Disk.checkAccess, known, if_neg readable]
    rfl
  obtain ⟨notices', same⟩ := load_of_readFile (w := { w with notices }) reaches
  rw [content] at same
  exact ⟨notices', same⟩

theorem load_nothing (missing : w.reaches log = false) (notices : List String) :
    (load log).run { w with notices } = ([], { w with notices }) :=
  load_of_missing (w := { w with notices }) missing

end UndoLog

namespace History

variable {h : History} {log : Path} {w w' : World} {id : Nat} {data : FileData}

/-- What a history leaves behind when it is kept: the undo log holds what was done, unless it
is the redo log as well; and the redo log holds what was undone, or nothing is found there. -/
structure Leaves (h : History) (log : Path) (w' : World) : Prop where
  done : ∀ id data, w'.numberOf? log = some id → w'.numberOf? log ≠ w'.numberOf? (redoPath log) →
    w'.disk.file? id = some data → data.content = Text.encode (UndoLog.write h.done.reverse).text
  undone : h.undone.any Batch.isRecorded = true → ∀ id data, w'.numberOf? (redoPath log) = some id →
    w'.disk.file? id = some data → data.content = Text.encode (UndoLog.write h.undone.reverse).text
  nothing : h.undone.any Batch.isRecorded = false → w'.reaches (redoPath log) = false

theorem leaves_of_save (saved : (h.save log).run.run w = (.ok (), w')) : h.Leaves log w' := by
  obtain ⟨v, first, ⟨recorded, second⟩ | ⟨none_recorded, rest⟩⟩ := save_eq_ok saved
  · have stores := UndoLog.save_stores first
    have beside := UndoLog.save_stores second
    constructor
    · intro id data leads apart known
      exact stores.content_of_stores beside leads apart known
    · intro _ id data leads known
      exact beside.content leads known
    · exact fun none_recorded => nomatch recorded.symm.trans none_recorded
  · have stores := UndoLog.save_stores first
    have none_to_redo : ¬h.undone.any Batch.isRecorded = true := Bool.eq_false_iff.1 none_recorded
    obtain ⟨-, removed⟩ | ⟨missing, rfl⟩ := rest
    · obtain ⟨disk, did, rfl⟩ := World.act_eq_ok removed
      obtain ⟨within, gone, files⟩ := Disk.removeFile_within did
      refine ⟨?_, fun some_recorded => absurd some_recorded none_to_redo, fun _ => gone⟩
      intro id data leads _ known
      -- the disk before the removal is the larger one
      rw [World.numberOf?_eq_some] at leads
      have before := World.numberOf?_eq_some.2 (within.fileNumber leads)
      rw [World.afterDeed_disk, files] at known
      exact stores.content before known
    · refine ⟨?_, fun some_recorded => absurd some_recorded none_to_redo, fun _ => missing⟩
      exact fun id data leads _ known => stores.content leads known

/-- Of a stack that has no empty batches all recorded ones are written. -/
theorem filter_isWritten {stack : List Batch} (some_command : ∀ b ∈ stack, b.commands ≠ []) :
    stack.filter UndoLog.isWritten = stack.filter Batch.isRecorded := by
  refine List.filter_congr fun b member => ?_
  have full : b.isEmpty = false := List.isEmpty_eq_false_iff.2 (some_command b member)
  rw [UndoLog.isWritten, full, Bool.not_false, Bool.and_true]

/-- What is read of such a stack: the recorded batches, without their tags. -/
theorem kept_reverse {stack : List Batch} (some_command : ∀ b ∈ stack, b.commands ≠ []) :
    (UndoLog.kept stack.reverse).reverse = (stack.filter Batch.isRecorded).map UndoLog.untagged := by
  rw [UndoLog.kept, List.filter_reverse, List.map_reverse, List.reverse_reverse,
    filter_isWritten some_command]

/-- The undo log holds what was done, if it can be read and is another file than the redo log. -/
theorem load_of_save (saved : (h.save log).run.run w = (.ok (), w')) (legible : w'.Legible log)
    (apart : w'.numberOf? log ≠ w'.numberOf? (redoPath log)) : ((UndoLog.load log).run w').1 =
      UndoLog.read (Text.encode (UndoLog.write h.done.reverse).text) := by
  obtain ⟨id, data, leads, known, readable⟩ := legible
  obtain ⟨notices, same⟩ := UndoLog.load_of_legible leads known readable w'.notices
  rw [same, (leaves_of_save saved).done id data leads apart known]

/-- A history that was kept is loaded in the next session. What was done comes back if the
undo log can be read and is another file than the redo log; what was undone comes back if the
redo log can be read, which only matters when there is something to redo. -/
theorem load_after_save (reachable : h.Reachable)
    (regular : ∀ b ∈ h.done ++ h.undone, b.isRecorded = true → b.IsRegular)
    (saved : (h.save log).run.run w = (.ok (), w')) :
    (w'.Legible log → w'.numberOf? log ≠ w'.numberOf? (redoPath log) →
      ((load log h.limit).run w').1.done = (h.done.filter Batch.isRecorded).map UndoLog.untagged) ∧
    ((h.undone.any Batch.isRecorded = true → w'.Legible (redoPath log)) →
      ((load log h.limit).run w').1.undone =
        (h.undone.filter Batch.isRecorded).map UndoLog.untagged) := by
  have tidy := reachable.tidy
  have leaves := leaves_of_save saved
  obtain ⟨regular_done, regular_undone⟩ := List.forall_mem_append.1 regular
  constructor
  · intro legible apart
    obtain ⟨-, read⟩ := UndoLog.read_write fun b member => regular_done b (List.mem_reverse.1 member)
    have size : ((h.done.filter Batch.isRecorded).map UndoLog.untagged).length ≤ max h.limit 1 := by
      rw [List.length_map]
      exact (List.length_filter_le _ _).trans tidy.size
    rw [run_load, load_of_save saved legible apart, read]
    dsimp only [prune]
    rw [kept_reverse tidy.done, List.take_of_length_le size]
  · intro legible
    obtain ⟨stack, notices, first, -⟩ := UndoLog.load_loaded log w'
    rw [run_load, first]
    dsimp only [prune]
    cases recorded : h.undone.any Batch.isRecorded with
    | true =>
        obtain ⟨id, data, leads, known, readable⟩ := legible recorded
        obtain ⟨notices', second⟩ := UndoLog.load_of_legible leads known readable notices
        obtain ⟨-, read⟩ :=
          UndoLog.read_write fun b member => regular_undone b (List.mem_reverse.1 member)
        rw [second, leaves.undone recorded id data leads known, read, kept_reverse tidy.undone]
    | false =>
        have none_recorded : h.undone.filter Batch.isRecorded = [] :=
          List.filter_eq_nil_iff.2 fun b member is =>
            Bool.false_ne_true (recorded.symm.trans (List.any_eq_true.2 ⟨b, member, is⟩))
        rw [UndoLog.load_nothing (leaves.nothing recorded) notices, none_recorded]
        rfl

/-! ## Two renames -/

/-- A machine on which every command runs. -/
def obliging : Machine Unit where
  execute _ w := (.ok (), w)
  note _ w := w
  stopped w := (false, w)

/-- The history after some calls on that machine. -/
def afterCalls (calls : List Call) : History :=
  calls.foldl (fun h call => (h.call obliging (.fixed false : Policy Unit Unit) ⟨(), (), {}⟩ call).1)
    { limit := defaultLimit }

theorem reachable_afterCalls (calls : List Call) : (afterCalls calls).Reachable := by
  rw [afterCalls]
  induction calls using List.reverseRecOn with
  | nil => exact .empty _
  | append_singleton calls call ih =>
      rw [List.foldl_append]
      exact ih.call obliging _ _ call

/-- Two batches of renames, the second of which was undone. -/
def halfway : History :=
  afterCalls [
    .execute { kind := .rename, tag := "First", commands := [.rename (.ofString "/w/a") (.ofString "/w/b")] },
    .execute { kind := .rename, tag := "Second", commands :=
      [.rename (.ofString "/w/b") (.ofString "/w/c"), .rename (.ofString "/w/c") (.ofString "/w/d")] },
    .undo]

theorem regular_halfway : ∀ b ∈ halfway.done ++ halfway.undone, b.isRecorded = true → b.IsRegular := by
  have both : halfway.done ++ halfway.undone = [
      { kind := .rename, tag := "First", commands := [.rename (.ofString "/w/a") (.ofString "/w/b")] },
      { kind := .rename, tag := "Second", commands :=
        [.rename (.ofString "/w/b") (.ofString "/w/c"), .rename (.ofString "/w/c") (.ofString "/w/d")] }] := by
    decide +kernel
  have text : ∀ a b : String, (Command.rename (.ofString a) (.ofString b)).IsRegular :=
    fun a b => ⟨⟨a, rfl⟩, b, rfl⟩
  rw [both, List.forall_mem_cons, List.forall_mem_singleton]
  constructor
  · exact fun _ => ⟨by decide, List.forall_mem_singleton.2 (text _ _), nofun⟩
  · exact fun _ => ⟨by decide, List.forall_mem_cons.2 ⟨text _ _, List.forall_mem_singleton.2 (text _ _)⟩, nofun⟩

/-- Both stacks come back, whatever the logs held before. -/
theorem load_after_save_halfway :
    let saved := (halfway.save (.ofString "undo.log")).run.run
      (World.sample [("undo.log", "old"), ("undo.log.redo", "older")])
    saved.1 = .ok () ∧
      ((load (.ofString "undo.log") halfway.limit).run saved.2).1.done =
        (halfway.done.filter Batch.isRecorded).map UndoLog.untagged ∧
      ((load (.ofString "undo.log") halfway.limit).run saved.2).1.undone =
        (halfway.undone.filter Batch.isRecorded).map UndoLog.untagged := by
  intro saved
  have stored : saved = (.ok (), saved.2) := Prod.ext (by decide +kernel) rfl
  have reachable : halfway.Reachable := reachable_afterCalls _
  obtain ⟨done, undone⟩ := load_after_save reachable regular_halfway stored
  exact ⟨congrArg Prod.fst stored, done (by decide +kernel) (by decide +kernel),
    undone fun _ => by decide +kernel⟩

/-- When the redo log is a link to the undo log, what was undone comes back as done. And from a log
that cannot be read nothing comes back. -/
theorem not_load_after_save :
    let save := fun w => (halfway.save (.ofString "undo.log")).run.run w
    let loaded := fun w => ((load (.ofString "undo.log") halfway.limit).run (save w).2).1
    let done := (halfway.done.filter Batch.isRecorded).map UndoLog.untagged
    let undone := (halfway.undone.filter Batch.isRecorded).map UndoLog.untagged
    let logs := World.sample [("undo.log", "old"), ("undo.log.redo", "older")]
    halfway.Reachable ∧
      (∀ b ∈ halfway.done ++ halfway.undone, b.isRecorded = true → b.IsRegular) ∧
      (let linked := (World.sample []).withLink "undo.log.redo" "undo.log"
      (save linked).1 = .ok () ∧ (loaded linked).done ≠ done) ∧
      (let denied := logs.withUnreadable "undo.log"
      (save denied).1 = .ok () ∧ (loaded denied).done ≠ done) ∧
      (let denied := logs.withUnreadable "undo.log.redo"
      (save denied).1 = .ok () ∧ (loaded denied).undone ≠ undone) := by
  refine ⟨reachable_afterCalls _, regular_halfway, ⟨?_, ?_⟩, ⟨?_, ?_⟩, ?_, ?_⟩
  all_goals decide +kernel

end History

end Renumber
