import Renumber.Proofs.Json.Reading
import Renumber.Proofs.Run.Conduct
import Renumber.Proofs.Time.Reading
import Renumber.Proofs.UndoLog.Reading

/-!
# Commands from a log

Renames between paths that are text are read back as they were written. A file state whose path
is text and whose times have dates is read back from its JSON, and so is a command that writes
one. Stamps are read back if their years have four digits.
-/

namespace Renumber

open Renumber.Time (Instant)

namespace FileState

/-- The path is text, and every known time has a year of four digits. -/
structure IsRegular (s : FileState) : Prop where
  path : s.path.IsText
  times : ∀ t, s.modified = some t ∨ s.created = some t ∨ s.accessed = some t → t.IsRegular 0

/-- The path is text, and there is a date for every known time. -/
structure IsDated (s : FileState) : Prop where
  path : s.path.IsText
  times : ∀ t, s.modified = some t ∨ s.created = some t ∨ s.accessed = some t → t.IsShown 0

theorem IsRegular.dated {s : FileState} (regular : s.IsRegular) : s.IsDated :=
  ⟨regular.path, fun t known => (regular.times t known).shown (by decide)⟩

/-- The fields of a state whose path is written so. -/
def fields (s : FileState) (path : String) : List (String × Json) :=
  [("path", .text path), ("attributes", .ofNat s.attributes.bits.toNat),
    ("modified", timeJson s.modified), ("created", timeJson s.created),
    ("accessed", timeJson s.accessed)] ++
    (s.mode.map fun mode => ("mode", Json.ofNat mode.toNat)).toList

theorem plain_timeJson (t : Option Instant) : Json.Plain (timeJson t) := by
  cases t with
  | none => exact .null
  | some t => exact .text _

theorem plain_fields (s : FileState) (path : String) : ∀ field ∈ s.fields path, Json.Plain field.2 := by
  have word : ∀ n : UInt32, Json.Plain (.ofNat n.toNat) := fun n => .word n.toNat_lt
  rw [fields]
  simp only [List.forall_mem_append, List.forall_mem_cons, List.not_mem_nil, false_imp_iff,
    implies_true, and_true]
  refine ⟨⟨.text _, word _, plain_timeJson _, plain_timeJson _, plain_timeJson _⟩, ?_⟩
  cases s.mode with
  | none => exact nofun
  | some mode => exact List.forall_mem_singleton.2 (word mode)

theorem word?_ofNat (n : UInt32) : word? (.ofNat n.toNat) = some n := by
  show (if n.toNat < UInt32.size then some (UInt32.ofNat n.toNat) else none) = some n
  rw [if_pos n.toNat_lt, UInt32.ofNat_toNat]

theorem optional_timeJson {t : Option Instant} (dated : ∀ i, t = some i → i.IsShown 0) :
    optional time? (timeJson t) = some t := by
  cases t with
  | none => rfl
  | some t =>
      show (Time.readInstant? t.zuluText.toList).map some = some (some t)
      rw [Time.readInstant?_zuluText (dated t rfl)]
      rfl

theorem toJson_eq {s : FileState} {path : String} (text : s.path = .ofString path) :
    s.toJson = .ok (.object (s.fields path)) := by
  rw [toJson, text, Path.toString?_ofString, fields]
  cases s.mode <;> rfl

/-- A state is read back from its fields. -/
theorem ofJson?_fields {s : FileState} {path : String} (text : s.path = .ofString path)
    (dated : s.IsDated) : ofJson? (.object (s.fields path)) = some s := by
  have modified := optional_timeJson fun t same => dated.times t (.inl same)
  have created := optional_timeJson fun t same => dated.times t (.inr (.inl same))
  have accessed := optional_timeJson fun t same => dated.times t (.inr (.inr same))
  have bits := word?_ofNat s.attributes.bits
  have known : path? (.text path) = some s.path := congrArg some text.symm
  have made : ∀ v, optional word? v = some s.mode →
      ofValues? (.text path) (.ofNat s.attributes.bits.toNat) (timeJson s.modified)
        (timeJson s.created) (timeJson s.accessed) v = some s := by
    intro v mode
    rw [ofValues?]
    simp only [Option.bind_eq_bind, known, bits, modified, created, accessed, mode, Option.bind_some]
    rfl
  cases mode : s.mode with
  | none =>
      have values := made .null (by rw [mode]; rfl)
      rw [← values, fields, mode]
      rfl
  | some m =>
      have values := made (.ofNat m.toNat) (by
        rw [mode]
        exact congrArg (Option.map some) (word?_ofNat m))
      rw [← values, fields, mode]
      rfl

end FileState

namespace UndoLog

open Renumber.Text (isBlank trimStart)

/-! ## Renames -/

theorem commandText_rename (a b : String) :
    commandText (.rename (.ofString a) (.ofString b)) =
      .ok (Json.quoted a.toList ++ arrow ++ Json.quoted b.toList) := by
  rw [commandText, pathText, pathText, Path.toString?_ofString, Path.toString?_ofString]
  rfl

/-- A rename has a line only if its paths are text. -/
theorem isText_of_commandText {source target : Path} {text : List Char}
    (written : commandText (.rename source target) = .ok text) : source.IsText ∧ target.IsText := by
  have each : ∀ {p : Path} {line : List Char}, pathText p = .ok line → p.IsText := by
    intro p line spelled
    cases read : p.toString? with
    | none =>
        rw [pathText, read] at spelled
        cases spelled
    | some s => exact Path.isText_of_toString? read
  rw [commandText] at written
  cases first : pathText source with
  | error fault =>
      rw [first] at written
      cases written
  | ok line =>
      cases second : pathText target with
      | error fault =>
          rw [first, second] at written
          cases written
      | ok line' => exact ⟨each first, each second⟩

theorem isEntry_rename (a b : String) :
    IsEntry (Json.quoted a.toList ++ arrow ++ Json.quoted b.toList) where
  first := ⟨'"', _, rfl, by decide, by decide⟩
  last c last := by
    have ends : Json.quoted b.toList = ('"' :: b.toList.flatMap Json.escapeChar) ++ ['"'] := rfl
    rw [ends, ← List.append_assoc, List.getLast?_concat] at last
    cases last
    decide
  one_line := by
    have quoted : ∀ s, '\n' ∉ Json.quoted s := fun s member =>
      absurd (Json.printed_of_mem_quoted member) (by decide)
    simp only [List.mem_append, not_or]
    exact ⟨⟨quoted _, by decide⟩, quoted _⟩

/-- The two paths of a rename are read from its line. -/
theorem command?_rename (a b : String) :
    command? .rename (Json.quoted a.toList ++ arrow ++ Json.quoted b.toList) =
      some (.rename (.ofString a) (.ofString b)) := by
  have before : Json.readFront? (Json.quoted a.toList ++ (arrow ++ Json.quoted b.toList)) =
      some (.text (String.ofList a.toList), arrow ++ Json.quoted b.toList) :=
    Json.readFront?_quoted (Json.skipGaps_quoted _ _)
  have between : trimStart (arrow ++ Json.quoted b.toList) =
      '-' :: '>' :: ' ' :: Json.quoted b.toList := rfl
  have after : Json.parse? (' ' :: Json.quoted b.toList) =
      some (.text (String.ofList b.toList)) := Json.parse?_quoted rfl
  rw [command?, sides?, List.append_assoc, before]
  simp only [Option.bind_eq_bind, Option.bind_some, between, after, String.ofList_toList]
  rfl

/-- A batch of renames between paths that are text is read back. -/
theorem readsBack_of_renames {b : Batch} (renames : b.kind = .rename)
    (some_command : b.commands ≠ []) (texts : ∀ c ∈ b.commands, c.RenamesIn Path.IsText) :
    ReadsBack b where
  recorded := by
    rw [Batch.isRecorded, renames]
    rfl
  some_command := some_command
  entries c member := by
    have text := texts c member
    cases c with
    | rename source target =>
        obtain ⟨⟨a, rfl⟩, ⟨b, rfl⟩⟩ := text
        have line : lineOf (.rename (.ofString a) (.ofString b)) =
            Json.quoted a.toList ++ arrow ++ Json.quoted b.toList := by
          rw [lineOf, commandText_rename]
          rfl
        rw [line, renames]
        exact ⟨isEntry_rename a b, command?_rename a b⟩
    | _ => exact text.elim

/-! ## Commands that write states -/

theorem commandText_touch {former target : FileState} {a b : String} (source : former.path = .ofString a)
    (written : target.path = .ofString b) : commandText (.touch former target) =
      .ok ((Json.object (former.fields a)).chars ++ arrow ++ (Json.object (target.fields b)).chars) := by
  rw [commandText, FileState.toJson_eq source, FileState.toJson_eq written]
  rfl

theorem fields_ne_nil (s : FileState) (path : String) : s.fields path ≠ [] := by
  rw [FileState.fields]
  exact List.cons_ne_nil _ _

/-- The states of a command are read from its line. -/
theorem command?_touch {former target : FileState} {a b : String} (source : former.path = .ofString a)
    (written : target.path = .ofString b) (dated : former.IsDated) (dated' : target.IsDated) :
    command? .touch ((Json.object (former.fields a)).chars ++ arrow ++
      (Json.object (target.fields b)).chars) = some (.touch former target) := by
  have before := Json.readFront?_object (fields_ne_nil former a) (FileState.plain_fields former a)
    (Json.skipGaps_object _ (arrow ++ (Json.object (target.fields b)).chars))
  have after : Json.parse? (' ' :: (Json.object (target.fields b)).chars) =
      some (.object (target.fields b)) :=
    Json.parse?_object (fields_ne_nil target b) (FileState.plain_fields target b) rfl
  have between : Text.trimStart (arrow ++ (Json.object (target.fields b)).chars) =
      '-' :: '>' :: ' ' :: (Json.object (target.fields b)).chars := rfl
  have both : sides? ((Json.object (former.fields a)).chars ++ arrow ++
      (Json.object (target.fields b)).chars) =
      some (.object (former.fields a), .object (target.fields b)) := by
    rw [sides?, List.append_assoc, before]
    simp only [Option.bind_eq_bind, Option.bind_some, between, after]
    rfl
  rw [command?, both]
  simp only [Option.bind_eq_bind, Option.bind_some, FileState.ofJson?_fields source dated,
    FileState.ofJson?_fields written dated']
  rfl

theorem isEntry_touch (former target : FileState) (a b : String) :
    IsEntry ((Json.object (former.fields a)).chars ++ arrow ++ (Json.object (target.fields b)).chars) where
  first := ⟨'{', _, by rw [Json.chars]; rfl, by decide, by decide⟩
  last c last := by
    have ends : ((Json.object (former.fields a)).chars ++ arrow ++
        (Json.object (target.fields b)).chars).getLast? = some '}' := by
      rw [List.getLast?_append, Json.chars, List.getLast?_cons, Json.getLast?_fieldChars]
      rfl
    rw [ends] at last
    cases last
    decide
  one_line := by
    have object : ∀ (s : FileState) (path : String), '\n' ∉ (Json.object (s.fields path)).chars := by
      intro s path member
      rw [Json.chars, List.mem_cons] at member
      obtain brace | inside := member
      · cases brace
      · exact absurd (Json.printed_fieldChars (FileState.plain_fields s path) _ inside) (by decide)
    simp only [List.mem_append, not_or]
    exact ⟨⟨object _ _, by decide⟩, object _ _⟩

end UndoLog

/-! ## Batches -/

/-- A command on files that can be written down: its paths are text, and the times of its
states have four-digit years. -/
def Command.IsRegular : Command → Prop
  | rename source target => source.IsText ∧ target.IsText
  | touch former target => former.IsRegular ∧ target.IsRegular
  | _ => False

/-- The commands of the batch are of its kind, and all of it can be written down. -/
structure Batch.IsRegular (b : Batch) : Prop where
  kinds : ∀ c ∈ b.commands, c.kind = b.kind
  commands : ∀ c ∈ b.commands, c.IsRegular
  stamp : ∀ s, b.stamp = some s → s.IsRegular

/-- A command on files whose paths are text, with dates for the times of its states. -/
def Command.IsDated : Command → Prop
  | rename source target => source.IsText ∧ target.IsText
  | touch former target => former.IsDated ∧ target.IsDated
  | _ => False

/-- The commands of the batch are of its kind and have dates, and its stamp has a year of four
digits. -/
structure Batch.IsDated (b : Batch) : Prop where
  kinds : ∀ c ∈ b.commands, c.kind = b.kind
  commands : ∀ c ∈ b.commands, c.IsDated
  stamp : ∀ s, b.stamp = some s → s.IsRegular

theorem Command.IsRegular.dated {c : Command} (regular : c.IsRegular) : c.IsDated := by
  cases c with
  | rename source target => exact regular
  | touch former target => exact ⟨regular.1.dated, regular.2.dated⟩
  | _ => exact regular.elim

theorem Batch.IsRegular.dated {b : Batch} (regular : b.IsRegular) : b.IsDated :=
  ⟨regular.kinds, fun c member => (regular.commands c member).dated, regular.stamp⟩

namespace UndoLog

/-- A command has a line, and is read from it. -/
theorem exists_entry {c : Command} (dated : c.IsDated) :
    ∃ text, commandText c = .ok text ∧ IsEntry text ∧ command? c.kind text = some c := by
  cases c with
  | rename source target =>
      obtain ⟨⟨a, rfl⟩, ⟨b, rfl⟩⟩ := dated
      exact ⟨_, commandText_rename a b, isEntry_rename a b, command?_rename a b⟩
  | touch former target =>
      obtain ⟨source, written⟩ := dated
      obtain ⟨⟨a, path⟩, ⟨b, path'⟩⟩ := And.intro source.path written.path
      exact ⟨_, commandText_touch path path', isEntry_touch former target a b,
        command?_touch path path' source written⟩
  | _ => exact dated.elim

theorem canWrite_of_dated {b : Batch} (dated : b.IsDated) : CanWrite b.commands := by
  intro c member
  obtain ⟨text, written, -⟩ := exists_entry (dated.commands c member)
  exact ⟨text, written⟩

/-- A batch that is recorded and not empty is read back. -/
theorem readsBack_of_dated {b : Batch} (written : isWritten b = true) (dated : b.IsDated) :
    ReadsBack b := by
  rw [isWritten, Bool.and_eq_true, Bool.not_eq_true'] at written
  refine ⟨written.1, List.isEmpty_eq_false_iff.1 written.2, ?_⟩
  intro c member
  obtain ⟨text, line, entry, read⟩ := exists_entry (dated.commands c member)
  have own : lineOf c = text := by
    rw [lineOf, line]
    rfl
  rw [own, ← dated.kinds c member]
  exact ⟨entry, read⟩

/-- What is read of a batch is the batch without its tag. -/
theorem asRead_of_dated {b : Batch} (dated : b.IsDated) : asRead b = { b with tag := "" } := by
  have stamp : stampRead b = b.stamp := by
    rw [stampRead]
    cases stamp : b.stamp with
    | none => rfl
    | some s => rw [Option.bind_some, Time.readStamp?_text (dated.stamp s stamp)]
  rw [asRead, stamp]

end UndoLog

end Renumber
