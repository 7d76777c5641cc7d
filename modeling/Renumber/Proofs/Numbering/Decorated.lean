import Mathlib.Data.List.Perm.Subperm
import Renumber.Proofs.Numbering.Again
import Renumber.Proofs.Numbering.FirstFit
import Renumber.Proofs.Path.Letters

/-!
# When the decorators run out

Whatever the pattern and the source, and whether letter case counts or not, no two of the
destinations that may be tried for a source are one path: a decorator changes the letters of the
path, and two decorators have different digits. So each path in the way blocks one destination at
most, and the decorators run out only where there are as many paths in the way.
-/

namespace Renumber.Pattern.Spec

open Renumber.Path (isMark)
open Renumber.Text (lower)

variable {d e : Option Nat} {n : Nat}

/-- The characters that decorators are written with. -/
def decoratorChars : List Char :=
  ['_', '(', ')', '0', '1', '2', '3', '4', '5', '6', '7', '8', '9']

theorem mem_decoratorChars {c : Char} (member : c ∈ decorator d) : c ∈ decoratorChars := by
  have digits : ∀ k : Fin 10, Nat.digitChar k.val ∈ decoratorChars := by decide
  cases d with
  | none => cases member
  | some n =>
      obtain rfl | inner := List.mem_cons.1 member
      · decide
      · obtain rfl | inner := List.mem_cons.1 inner
        · decide
        · obtain digit | closing := List.mem_append.1 inner
          · obtain ⟨k, small, rfl⟩ := Text.exists_of_mem_toDigits (by decide) digit
            exact digits ⟨k, small⟩
          · obtain rfl := List.mem_singleton.1 closing
            decide

set_option maxRecDepth 8000 in
theorem isBreak_of_mem_decorator {c : Char} (member : c ∈ decorator d) : Text.Case.IsBreak c := by
  have all : decoratorChars.all (fun c => decide (Text.Case.IsBreak c)) = true := by decide
  exact of_decide_eq_true (List.all_eq_true.1 all c (mem_decoratorChars member))

/-- There are neither separators nor dots in a decorator. -/
theorem filter_decorator (d : Option Nat) : (decorator d).filter (!isMark ·) = decorator d := by
  have all : decoratorChars.all (!isMark ·) = true := by decide
  exact List.filter_eq_self.2 fun c member => List.all_eq_true.1 all c (mem_decoratorChars member)

theorem decorator_injective : Function.Injective decorator := by
  intro d e same
  cases d with
  | none =>
      cases e with
      | none => rfl
      | some m => cases same
  | some n =>
      cases e with
      | none => cases same
      | some m =>
          have digits : Nat.toDigits 10 n = Nat.toDigits 10 m :=
            List.append_cancel_right (List.cons.inj (List.cons.inj same).2).2
          have read : ∀ k, Text.numberIn 10 (Nat.toDigits 10 k) = k :=
            fun k => Text.numberIn_toDigits (by decide) (by decide)
          rw [← read n, digits, read m]

/-! ## Texts with a decorator -/

/-- A decorator is among what is left of a text without separators and dots. -/
theorem filter_decorated (front back : List Char) (d : Option Nat) :
    (front ++ decorator d ++ back).filter (!isMark ·) =
      front.filter (!isMark ·) ++ decorator d ++ back.filter (!isMark ·) := by
  simp only [List.filter_append, filter_decorator]

/-- Two decorators never leave the same of a text. -/
theorem decorator_of_filter (front back : List Char)
    (same : (front ++ decorator d ++ back).filter (!isMark ·) = (front ++ decorator e ++ back).filter (!isMark ·)) :
    d = e := by
  rw [filter_decorated, filter_decorated] at same
  exact decorator_injective (List.append_cancel_left (List.append_cancel_right same))

theorem lower_decorated (front back : List Char) (n : Nat) :
    lower (front ++ decorator (some n) ++ back) = lower front ++ decorator (some n) ++ lower back := by
  apply Text.lower_append_breaks
  · exact List.cons_ne_nil _ _
  · exact fun _ member => isBreak_of_mem_decorator member

/-- Brought to lower case, a text has more letters with a decorator than without one. -/
theorem filter_lower_ne (front back : List Char) (n : Nat) :
    (lower (front ++ back)).filter (!isMark ·) ≠
      (lower (front ++ decorator (some n) ++ back)).filter (!isMark ·) := by
  intro same
  have longer : 0 < (decorator (some n)).length := Nat.succ_pos _
  have apart : (lower (front ++ back)).countP (!isMark ·) =
      (lower front).countP (!isMark ·) + (lower back).countP (!isMark ·) :=
    Text.countP_lower_append rfl front back
  have count := congrArg List.length same
  simp only [lower_decorated, filter_decorated, List.length_append, ← List.countP_eq_length_filter, apart] at count
  omega

/-- Not even in lower case do two decorators make one path of a text. -/
theorem decorator_of_filter_lower (front back : List Char)
    (same : (lower (front ++ decorator d ++ back)).filter (!isMark ·) =
      (lower (front ++ decorator e ++ back)).filter (!isMark ·)) : d = e := by
  have plain : front ++ decorator none ++ back = front ++ back :=
    congrArg (· ++ back) (List.append_nil front)
  cases d with
  | none =>
      cases e with
      | none => rfl
      | some m =>
          rw [plain] at same
          exact absurd same (filter_lower_ne front back m)
  | some n =>
      cases e with
      | none =>
          rw [plain] at same
          exact absurd same.symm (filter_lower_ne front back n)
      | some m =>
          rw [lower_decorated, lower_decorated] at same
          exact decorator_of_filter _ _ same

/-- A path tells the decorator that it is written with, whatever stands around that, and whether letter case
counts or not. -/
theorem decorator_of_key {p q : Path} {folder : List UInt8} {front back : List Char} (caseInsensitive : Bool)
    (ends : Path.EndsFolder folder) (first : p.bytes = folder ++ Text.encode (front ++ decorator d ++ back))
    (second : q.bytes = folder ++ Text.encode (front ++ decorator e ++ back))
    (same : p.key caseInsensitive = q.key caseInsensitive) : d = e := by
  have letters : Path.letters (p.folded caseInsensitive).bytes = Path.letters (q.folded caseInsensitive).bytes :=
    Path.letters_congr same
  cases caseInsensitive with
  | false =>
      change Path.letters p.bytes = Path.letters q.bytes at letters
      rw [first, second, Path.letters_append, Path.letters_append] at letters
      have names := List.append_cancel_left letters
      rw [Path.letters_encode, Path.letters_encode] at names
      exact decorator_of_filter front back (Text.encode_injective names)
  | true =>
      change Path.letters (Path.lowerBytes p.bytes) = Path.letters (Path.lowerBytes q.bytes) at letters
      rw [first, second, Path.letters_lowerBytes ends, Path.letters_lowerBytes ends] at letters
      have texts := Text.encode_injective letters
      simp only [← List.append_assoc] at texts
      exact decorator_of_filter_lower _ back texts

/-- Whether a name is absolute is settled before its decorator. -/
theorem isAbsolute_decorated (front extension : List Char) (d : Option Nat) :
    (Path.mk (Text.encode (front ++ decorator d ++ dotted extension))).isAbsolute =
      (Path.mk (Text.encode front)).isAbsolute := by
  rw [Path.isAbsolute_encode, Path.isAbsolute_encode]
  cases front with
  | cons c front => rfl
  | nil =>
      cases d with
      | some n => rfl
      | none =>
          rw [decorator, dotted]
          split <;> rfl

end Renumber.Pattern.Spec

namespace Renumber.Numbering

open Renumber.Pattern (Spec maxCounter)
open Renumber.Pattern.Spec (decorator dotted)
open Renumber.Text (encode)

variable {g : Numbering} {present : Path → Bool} {sources given tried : List Path} {source : Path}

/-- The destinations of a source are written with the same text before the decorator and the same one
behind it. -/
theorem exists_candidate (g : Numbering) (source : Path) (counter : Nat) :
    ∃ folder front back, Path.EndsFolder folder ∧
      ∀ d, (g.candidate source counter d).bytes = folder ++ encode (front ++ decorator d ++ back) := by
  let name := Pattern.splitName (Spec.nameText source)
  let front := (g.spec.name.format name.1 counter).text
  let extension := g.spec.extensionText name.2 counter
  obtain ⟨folder, ends, joined⟩ := Path.exists_join (g.folderOf source) (Path.mk (encode front)).isAbsolute
  refine ⟨folder, front, dotted extension, ends, fun d => ?_⟩
  have text : g.nameOf source counter d = front ++ decorator d ++ dotted extension :=
    Spec.formatName_text g.spec (Spec.nameText source) counter d
  rw [candidate_eq, text]
  exact joined ⟨_⟩ (Spec.isAbsolute_decorated front extension d)

/-- No two decorators make one path, whether letter case counts or not. -/
theorem key_candidate_injective (g : Numbering) (source : Path) (counter : Nat) :
    Function.Injective fun d => g.key (g.candidate source counter d) := by
  intro d e same
  obtain ⟨folder, front, back, ends, written⟩ := g.exists_candidate source counter
  exact Spec.decorator_of_key g.options.caseInsensitive ends (written d) (written e) same

theorem nodup_choices (g : Numbering) (source : Path) (counter : Nat) :
    ((g.choices source counter).map g.key).Nodup := by
  have decorators_apart : g.decorators.Nodup := by
    refine List.nodup_cons.2 ⟨fun member => ?_, ?_⟩
    · obtain ⟨n, -, decorated⟩ := List.mem_map.1 member
      cases decorated
    · have inner : ((List.range (g.options.maxDuplicates - 1)).map (2 + ·)).Nodup :=
        List.Nodup.map (fun _ _ => Nat.add_left_cancel) List.nodup_range
      exact List.Nodup.map (fun _ _ => Option.some.inj) inner
  rw [choices_eq, List.map_map]
  exact List.Nodup.map (g.key_candidate_injective source counter) decorators_apart

theorem length_choices (g : Numbering) (source : Path) (counter : Nat) :
    (g.choices source counter).length = max 1 g.options.maxDuplicates := by
  rw [choices, List.length_cons, List.length_map, List.length_range']
  omega

/-- Where paths are taken, as many different ones are in the way: destinations that were given, or places of
foreign files. -/
theorem exists_taken (all : ∀ p ∈ tried, g.Taken present sources given p) :
    ∃ taken : List Path, taken.map g.key = tried.map g.key ∧ ∀ p ∈ taken, p ∈ given ∨ g.Foreign present sources p := by
  induction tried with
  | nil => exact ⟨[], rfl, nofun⟩
  | cons p tried ih =>
      obtain ⟨first, others⟩ := List.forall_mem_cons.1 all
      obtain ⟨taken, keys, own⟩ := ih others
      obtain ⟨q, was_given, key⟩ | foreign := first
      · refine ⟨q :: taken, ?_, List.forall_mem_cons.2 ⟨.inl was_given, own⟩⟩
        rw [List.map_cons, List.map_cons, key, keys]
      · refine ⟨p :: taken, ?_, List.forall_mem_cons.2 ⟨.inr foreign, own⟩⟩
        rw [List.map_cons, List.map_cons, keys]

/-- A source is left without a destination only where as many paths are in the way as destinations may be
tried for it. -/
theorem Stuck.exists_taken (stuck : g.Stuck present sources given source) :
    ∃ taken : List Path, max 1 g.options.maxDuplicates ≤ taken.length ∧ (taken.map g.key).Nodup ∧
      ∀ p ∈ taken, p ∈ given ∨ g.Foreign present sources p := by
  obtain ⟨taken, keys, own⟩ := Numbering.exists_taken stuck.taken
  have length := congrArg List.length keys
  rw [List.length_map, List.length_map, length_choices] at length
  refine ⟨taken, Nat.le_of_eq length.symm, ?_, own⟩
  rw [keys]
  exact g.nodup_choices source _

/-- Without foreign files there are fewer sources before the one that is left than may be in the way. -/
theorem Stuck.lt_length (stuck : g.Stuck present sources given source)
    (alone : g.options.checkExisting = false) : max 1 g.options.maxDuplicates < sources.length := by
  obtain ⟨taken, many, apart, own⟩ := stuck.exists_taken
  have within : taken.map g.key ⊆ given.map g.key := by
    intro k member
    obtain ⟨p, inside, rfl⟩ := List.mem_map.1 member
    obtain was_given | foreign := own p inside
    · exact List.mem_map_of_mem was_given
    · have keeps_clear := foreign.1
      rw [alone] at keeps_clear
      cases keeps_clear
  have fewer := List.Subperm.length_le (List.subperm_of_subset apart within)
  rw [List.length_map, List.length_map] at fewer
  calc max 1 g.options.maxDuplicates
      ≤ taken.length := many
    _ ≤ given.length := fewer
    _ < sources.length := stuck.length_lt

/-- All the destinations that may be tried for a source have keys of their own, for every pattern, source,
counter and folder. Hence a batch whose destinations are kept apart fails only at a source that finds
that many different paths in the way, each a destination given before or the place of a foreign
file. Where nothing foreign counts, a batch with no more sources than destinations may be tried is
always numbered. -/
theorem choices_run_out (counted : g.options.start ≤ maxCounter) (unique : g.options.unique = true) :
    (∀ source counter, ((g.choices source counter).map g.key).Nodup) ∧
    (∀ present sources failure, g.number present sources = .error failure →
      ∃ given source, g.Stuck present sources given source ∧
        failure = .noUniqueName (g.candidate source (g.counterAt given.length) none) g.options.maxDuplicates ∧
        ∃ taken : List Path, max 1 g.options.maxDuplicates ≤ taken.length ∧ (taken.map g.key).Nodup ∧
          ∀ p ∈ taken, p ∈ given ∨ g.Foreign present sources p) ∧
    (g.options.checkExisting = false → ∀ present sources, sources.length ≤ max 1 g.options.maxDuplicates →
      ∃ numbered, g.number present sources = .ok numbered) := by
  refine ⟨g.nodup_choices, fun present sources failure failed => ?_, fun alone present sources few => ?_⟩
  · have outcome := number_fits present sources unique counted
    rw [failed] at outcome
    obtain ⟨given, source, stuck, message⟩ := outcome
    exact ⟨given, source, stuck, message, stuck.exists_taken⟩
  · have outcome := number_fits present sources unique counted
    cases result : g.number present sources with
    | ok numbered => exact ⟨numbered, rfl⟩
    | error failure =>
        rw [result] at outcome
        obtain ⟨given, source, stuck, -⟩ := outcome
        exact absurd (stuck.lt_length alone) (Nat.not_lt.2 few)

/-- Where letter case does not count and two destinations may be tried, the second of two files finds both
taken: one went to the first file, and a foreign file has the other. Alone with each other the two
files are numbered. -/
theorem choices_run_out_folded :
    let options : NumberingOptions := {
      folder := some (.ofString "/out"), maxDuplicates := 2, caseInsensitive := true }
    let g : Numbering := ⟨.parse ['y', '*'], options, by decide +kernel⟩
    let alone : Numbering := ⟨.parse ['y', '*'], { options with checkExisting := false }, by decide +kernel⟩
    let present : Path → Bool := (· = .ofString "/out/yF_(2).txt")
    let sources : List Path := [.ofString "/a/f.txt", .ofString "/b/F.txt"]
    (∃ given source, g.Stuck present sources given source ∧
      ∃ taken : List Path, 2 ≤ taken.length ∧ (taken.map g.key).Nodup ∧
        ∀ p ∈ taken, p ∈ given ∨ g.Foreign present sources p) ∧
    ∃ numbered, alone.number present sources = .ok numbered := by
  intro options g alone present sources
  constructor
  · have known : (g.number present sources).map (fun _ => ()) =
        .error (.noUniqueName (.ofString "/out/yF.txt") 2) := by decide +kernel
    cases made : g.number present sources with
    | ok numbered =>
        rw [made] at known
        cases known
    | error failure =>
        obtain ⟨given, source, stuck, -, taken⟩ :=
          (choices_run_out (by decide) rfl).2.1 present sources failure made
        exact ⟨given, source, stuck, taken⟩
  · exact (choices_run_out (by decide) rfl).2.2 rfl present sources (by decide)

end Renumber.Numbering
