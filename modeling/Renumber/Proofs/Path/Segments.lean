import Mathlib.Data.List.DropRight
import Renumber.Path.Basic

/-!
# The segments of a path that count

Empty segments and single dots do not change where a path leads. What is left are its
real segments. Together with the lead they determine the components and are determined
by them, and the parent of a path has all of them but the last.
-/

namespace Renumber

namespace Text

variable {α : Type} [DecidableEq α]

theorem splitOn_cons_self (sep : α) (s : List α) :
    splitOn sep (sep :: s) = [] :: splitOn sep s := by
  simp [splitOn]

theorem splitOn_cons_ne {sep a : α} (h : a ≠ sep) (s : List α) :
    splitOn sep (a :: s) = (a :: (splitOn sep s).head (splitOn_ne_nil sep s)) ::
      (splitOn sep s).tail := by
  obtain ⟨piece, more, pieces⟩ := List.exists_cons_of_ne_nil (splitOn_ne_nil sep s)
  simp [splitOn, if_neg h, pieces]

/-- No piece holds the separator. -/
theorem not_mem_of_mem_splitOn {sep : α} {s piece : List α} (h : piece ∈ splitOn sep s) :
    sep ∉ piece := by
  induction s generalizing piece with
  | nil =>
    simp only [splitOn, List.mem_singleton] at h
    simp [h]
  | cons a s ih =>
    by_cases ha : a = sep
    · subst ha
      rw [splitOn_cons_self, List.mem_cons] at h
      rcases h with rfl | h
      · simp
      · exact ih h
    · rw [splitOn_cons_ne ha, List.mem_cons] at h
      rcases h with rfl | h
      · simp only [List.mem_cons, not_or]
        exact ⟨Ne.symm ha, ih (List.head_mem _)⟩
      · exact ih (List.mem_of_mem_tail h)

theorem splitOn_of_not_mem {sep : α} {s : List α} (h : sep ∉ s) : splitOn sep s = [s] := by
  induction s with
  | nil => rfl
  | cons a s ih =>
    simp only [List.mem_cons, not_or] at h
    rw [splitOn_cons_ne (Ne.symm h.1)]
    simp [ih h.2]

theorem splitOn_append_cons {sep : α} {s : List α} (h : sep ∉ s) (t : List α) :
    splitOn sep (s ++ sep :: t) = s :: splitOn sep t := by
  induction s with
  | nil => exact splitOn_cons_self sep t
  | cons a s ih =>
    simp only [List.mem_cons, not_or] at h
    rw [List.cons_append, splitOn_cons_ne (Ne.symm h.1)]
    simp [ih h.2]

/-- Splitting undoes joining, when there is a piece and no piece holds the separator. -/
theorem splitOn_joinWith {sep : α} {pieces : List (List α)} (hne : pieces ≠ [])
    (h : ∀ piece ∈ pieces, sep ∉ piece) : splitOn sep (joinWith sep pieces) = pieces := by
  induction pieces with
  | nil => exact absurd rfl hne
  | cons piece rest ih =>
    cases rest with
    | nil => exact splitOn_of_not_mem (h piece List.mem_cons_self)
    | cons next rest =>
      rw [joinWith, splitOn_append_cons (h piece List.mem_cons_self),
        ih (by simp) fun p hp => h p (List.mem_cons_of_mem _ hp)]
      simp

omit [DecidableEq α] in
theorem joinWith_append {sep : α} {front back : List (List α)} (hf : front ≠ [])
    (hb : back ≠ []) :
    joinWith sep (front ++ back) = joinWith sep front ++ sep :: joinWith sep back := by
  induction front with
  | nil => exact absurd rfl hf
  | cons piece rest ih =>
    cases rest with
    | nil =>
      cases back with
      | nil => exact absurd rfl hb
      | cons next back => simp [joinWith]
    | cons next rest =>
      have := ih (by simp)
      simp only [List.cons_append] at this ⊢
      simp [joinWith, this]

omit [DecidableEq α] in
/-- Fewer pieces at the end give a beginning of the text. -/
theorem joinWith_isPrefix (sep : α) {front all : List (List α)} (h : front <+: all) :
    joinWith sep front <+: joinWith sep all := by
  obtain ⟨back, rfl⟩ := h
  by_cases hf : front = []
  · simp [hf, joinWith]
  · by_cases hb : back = []
    · simp [hb]
    · rw [joinWith_append hf hb]
      exact List.prefix_append _ _

omit [DecidableEq α] in
/-- What is in joined pieces is in one of them or separates them. -/
theorem mem_joinWith {sep a : α} {pieces : List (List α)} (member : a ∈ joinWith sep pieces) :
    a = sep ∨ ∃ piece ∈ pieces, a ∈ piece := by
  induction pieces with
  | nil => cases member
  | cons piece rest ih =>
    cases rest with
    | nil => exact .inr ⟨piece, List.mem_cons_self, member⟩
    | cons next rest =>
      have parts : a ∈ piece ++ sep :: joinWith sep (next :: rest) := member
      rw [List.mem_append, List.mem_cons] at parts
      obtain own | separates | later := parts
      · exact .inr ⟨piece, List.mem_cons_self, own⟩
      · exact .inl separates
      · obtain separates | ⟨other, among, inside⟩ := ih later
        · exact .inl separates
        · exact .inr ⟨other, List.mem_cons_of_mem _ among, inside⟩

omit [DecidableEq α] in
theorem subset_joinWith {sep : α} {piece : List α} {pieces : List (List α)} (member : piece ∈ pieces) :
    piece ⊆ joinWith sep pieces := by
  obtain ⟨front, back, rfl⟩ := List.append_of_mem member
  have from_here : piece ⊆ joinWith sep (piece :: back) := by
    cases back with
    | nil => exact List.Subset.refl _
    | cons next back => exact List.subset_append_left ..
  by_cases first : front = []
  · rw [first]
    exact from_here
  · rw [joinWith_append first (List.cons_ne_nil _ _)]
    exact fun a inside => List.mem_append_right _ (List.mem_cons_of_mem _ (from_here inside))

end Text

namespace Path

/-- The segments that a walk takes a step for. -/
def reals (p : Path) : List (List UInt8) :=
  (segments p.bytes).filter isReal

@[simp] theorem isReal_nil : isReal [] = false := rfl

@[simp] theorem isReal_dot : isReal [dot] = false := rfl

theorem isReal_iff {s : List UInt8} : isReal s = true ↔ s ≠ [] ∧ s ≠ [dot] := by
  simp [isReal]

theorem segments_ne_nil (bytes : List UInt8) : segments bytes ≠ [] :=
  Text.splitOn_ne_nil slash bytes

theorem segments_slash (bytes : List UInt8) : segments (slash :: bytes) = [] :: segments bytes :=
  Text.splitOn_cons_self slash bytes

theorem segments_joinSegments {list : List (List UInt8)} (hne : list ≠ [])
    (h : ∀ s ∈ list, slash ∉ s) : segments (joinSegments list) = list :=
  Text.splitOn_joinWith hne h

/-- What a lead can be, and what the bytes are then. -/
theorem lead_cases (p : Path) :
    (p.lead = none ∧ p.tailSegments = segments p.bytes ∧ p.bytes.head? ≠ some slash) ∨
    (p.lead = some .root ∧ p.bytes = slash :: p.bytes.tail ∧
      p.tailSegments = segments p.bytes.tail) ∨
    (p.lead = some .here ∧ p.bytes = dot :: p.bytes.tail ∧
      p.tailSegments = segments p.bytes.tail ∧
      (p.bytes.tail = [] ∨ p.bytes.tail.head? = some slash)) := by
  have hd : dot ≠ slash := by decide
  obtain ⟨bytes⟩ := p
  match bytes with
  | [] => simp [lead, tailSegments]
  | [b] =>
    by_cases hs : b = slash
    · subst hs
      simp [lead, tailSegments]
    · by_cases hb : b = dot
      · subst hb
        simp [lead, tailSegments, hd]
      · simp [lead, tailSegments, hs, hb]
  | b :: c :: rest =>
    by_cases hs : b = slash
    · subst hs
      simp [lead, tailSegments]
    · by_cases hb : b = dot ∧ c = slash
      · obtain ⟨rfl, rfl⟩ := hb
        simp [lead, tailSegments, hd]
      · simp [lead, tailSegments, hs, hb]

theorem reals_root (bytes : List UInt8) :
    reals ⟨slash :: bytes⟩ = (segments bytes).filter isReal := by
  simp [reals, segments_slash]

theorem reals_here {bytes : List UInt8} (ends : bytes = [] ∨ bytes.head? = some slash) :
    reals ⟨dot :: bytes⟩ = (segments bytes).filter isReal := by
  rcases ends with rfl | starts
  · decide
  · obtain ⟨rest, rfl⟩ : ∃ rest, bytes = slash :: rest := by
      cases bytes with
      | nil => simp at starts
      | cons b rest =>
          simp only [List.head?_cons, Option.some.injEq] at starts
          exact ⟨rest, by rw [starts]⟩
    have first : segments (dot :: slash :: rest) = [dot] :: segments rest :=
      Text.splitOn_append_cons (s := [dot]) (by decide) rest
    simp [reals, first, segments_slash]

/-- Bytes behind a path that are no separators go to its last segment. -/
theorem segments_append {bytes suffix : List UInt8} {front : List (List UInt8)} {last : List UInt8}
    (all : segments bytes = front ++ [last]) (one : slash ∉ suffix) :
    segments (bytes ++ suffix) = front ++ [last ++ suffix] := by
  have free : ∀ s ∈ front ++ [last], slash ∉ s := by
    intro s member
    rw [← all] at member
    exact Text.not_mem_of_mem_splitOn member
  have written : bytes ++ suffix = joinSegments (front ++ [last ++ suffix]) := by
    rw [← joinSegments_segments bytes, all]
    by_cases alone : front = []
    · rw [alone]
      rfl
    · rw [joinSegments, joinSegments, Text.joinWith_append alone (by simp),
        Text.joinWith_append alone (by simp), List.append_assoc]
      rfl
  rw [written, segments_joinSegments (by simp)]
  intro s member
  rw [List.mem_append, List.mem_singleton] at member
  obtain in_front | rfl := member
  · exact free s (List.mem_append_left _ in_front)
  · rw [List.mem_append, not_or]
    exact ⟨free last (by simp), one⟩

theorem filter_tailSegments (p : Path) : p.tailSegments.filter isReal = p.reals := by
  rcases p.lead_cases with ⟨_, tail, _⟩ | ⟨_, bytes, tail⟩ | ⟨_, bytes, tail, ends⟩
  · rw [tail, reals]
  · rw [tail, ← reals_root, ← bytes]
  · rw [tail, ← reals_here ends, ← bytes]

theorem components_eq (p : Path) : p.components = p.lead.toList ++ p.reals.map componentOf := by
  rw [components, filter_tailSegments]

theorem isAbsolute_iff_lead (p : Path) : p.isAbsolute = true ↔ p.lead = some .root := by
  have hd : dot ≠ slash := by decide
  rcases p.lead_cases with ⟨hl, _, hs⟩ | ⟨hl, hb, _⟩ | ⟨hl, hb, _⟩
  · simp [isAbsolute, hl, hs]
  · rw [hl, isAbsolute, hb]
    simp
  · rw [hl, isAbsolute, hb]
    simp [hd]

theorem componentOf_injective : Function.Injective componentOf := by
  intro a b h
  simp only [componentOf] at h
  split at h <;> split at h <;> simp_all

/-- A lead is not the component of a segment. -/
theorem componentOf_ne_lead {p : Path} {c : Component} (lead : p.lead = some c) (s : List UInt8) :
    componentOf s ≠ c := by
  rcases p.lead_cases with ⟨is_lead, -⟩ | ⟨is_lead, -⟩ | ⟨is_lead, -⟩ <;> rw [is_lead] at lead <;> cases lead
  · simp only [componentOf]
    split <;> simp
  · simp only [componentOf]
    split <;> simp

/-- A list that may have an element in front is told apart from others by that element and the
rest, where the rest starts with no such element. -/
theorem toList_append_inj {α : Type} {a b : Option α} {xs ys : List α}
    (same : a.toList ++ xs = b.toList ++ ys) (a_front : ∀ x ∈ a, x ∉ ys) (b_front : ∀ x ∈ b, x ∉ xs) :
    a = b ∧ xs = ys := by
  cases a with
  | none =>
      cases b with
      | none => exact ⟨rfl, same⟩
      | some y =>
          have head : xs = y :: ys := same
          exact absurd (head ▸ List.mem_cons_self) (b_front y rfl)
  | some x =>
      cases b with
      | none =>
          have head : x :: xs = ys := same
          exact absurd (head ▸ List.mem_cons_self) (a_front x rfl)
      | some y =>
          obtain ⟨rfl, rest⟩ := List.cons.inj same
          exact ⟨rfl, rest⟩

/-- Two paths are the same when their leads and their real segments are. -/
theorem components_eq_iff {p q : Path} :
    p.components = q.components ↔ p.lead = q.lead ∧ p.reals = q.reals := by
  have apart : ∀ (p q : Path), ∀ c ∈ p.lead, c ∉ q.reals.map componentOf := by
    intro p q c lead member
    obtain ⟨s, -, same⟩ := List.mem_map.1 member
    exact componentOf_ne_lead lead s same
  rw [components_eq, components_eq]
  constructor
  · intro same
    obtain ⟨leads, rest⟩ := toList_append_inj same (apart p q) (apart q p)
    exact ⟨leads, (List.map_inj_right fun _ _ => @componentOf_injective _ _).1 rest⟩
  · rintro ⟨leads, reals⟩
    rw [leads, reals]

/-- The real segments of joined segments are those among them. -/
theorem filter_segments_joinSegments {list : List (List UInt8)} (free : ∀ s ∈ list, slash ∉ s) :
    (segments (joinSegments list)).filter isReal = list.filter isReal := by
  cases list with
  | nil => decide
  | cons s rest => rw [segments_joinSegments (by simp) free]

theorem realTail_eq (list : List (List UInt8)) : realTail list = list.rdropWhile (!isReal ·) := rfl

theorem realTail_isPrefix (list : List (List UInt8)) : realTail list <+: list :=
  List.rdropWhile_prefix _ list

/-- Only segments that do not count are cut off. -/
theorem filter_realTail (list : List (List UInt8)) :
    (realTail list).filter isReal = list.filter isReal := by
  induction list using List.reverseRecOn with
  | nil => rfl
  | append_singleton front last ih =>
      rw [realTail_eq] at ih ⊢
      by_cases real : isReal last
      · rw [List.rdropWhile_concat_neg _ _ _ (by simp [real])]
      · rw [List.rdropWhile_concat_pos _ _ _ (by simp [real]), ih]
        simp [real]

/-- Without its last segment, which counts, the rest has all others that count. -/
theorem filter_dropLast_realTail {list : List (List UInt8)} (some_real : realTail list ≠ []) :
    (realTail list).dropLast.filter isReal = (list.filter isReal).dropLast := by
  have real : isReal ((realTail list).getLast some_real) := by
    have last := List.rdropWhile_last_not _ _ some_real
    rw [Bool.not_eq_true, Bool.not_eq_false'] at last
    exact last
  conv_rhs => rw [← filter_realTail, ← List.dropLast_append_getLast some_real]
  rw [List.filter_append]
  simp [real]

/-- A path is its lead and what is behind it. -/
theorem lead_append_tail (p : Path) : leadBytes p.lead ++ joinSegments p.tailSegments = p.bytes := by
  rcases p.lead_cases with ⟨lead, tail, -⟩ | ⟨lead, bytes, tail⟩ | ⟨lead, bytes, tail, -⟩
  · rw [lead, tail, joinSegments_segments]
    rfl
  · rw [lead, tail, joinSegments_segments]
    exact bytes.symm
  · rw [lead, tail, joinSegments_segments]
    exact bytes.symm

theorem slash_notMem_tailSegments (p : Path) : ∀ s ∈ p.tailSegments, slash ∉ s := by
  intro s member
  rw [tailSegments] at member
  split at member <;> exact Text.not_mem_of_mem_splitOn member

/-- The first segments behind a lead count where the lead is as they count by themselves. -/
theorem reals_lead_append {p : Path} {list : List (List UInt8)} (front : list <+: p.tailSegments) :
    reals ⟨leadBytes p.lead ++ joinSegments list⟩ = list.filter isReal := by
  have counted := filter_segments_joinSegments fun s member =>
    p.slash_notMem_tailSegments s (front.subset member)
  rcases p.lead_cases with ⟨lead, -, -⟩ | ⟨lead, -, -⟩ | ⟨lead, -, tail, ends⟩
  · rw [lead]
    exact counted
  · rw [lead]
    exact (reals_root _).trans counted
  · -- What follows the dot begins with a separator, as it does in the whole path.
    have bytes_front : joinSegments list <+: joinSegments p.tailSegments :=
      Text.joinWith_isPrefix slash front
    rw [tail, joinSegments_segments] at bytes_front
    have ends_front : joinSegments list = [] ∨ (joinSegments list).head? = some slash := by
      obtain ⟨more, all⟩ := bytes_front
      cases written : joinSegments list with
      | nil => exact .inl rfl
      | cons b _ =>
          rw [written] at all
          simpa [← all] using ends
    rw [lead]
    exact (reals_here ends_front).trans counted

/-- A path that is written with the first bytes of another begins as that does. -/
theorem isAbsolute_of_isPrefix {p q : Path} (front : q.bytes <+: p.bytes) :
    q.isEmpty = true ∨ q.isAbsolute = p.isAbsolute := by
  obtain ⟨more, all⟩ := front
  cases written : q.bytes with
  | nil => exact .inl (by simp [isEmpty, written])
  | cons b rest =>
      right
      rw [isAbsolute, isAbsolute, ← all, written]
      rfl

/-- What the parent of a path is, and that it is written with the path's first bytes. -/
theorem parent?_spec {p q : Path} (parent : p.parent? = some q) :
    q.reals = p.reals.dropLast ∧ q.bytes <+: p.bytes ∧
      (q.isEmpty = true ∨ q.isAbsolute = p.isAbsolute) := by
  rw [parent?] at parent
  split at parent
  · next none_real =>
    have reals_nil : p.reals = [] := by
      rw [← filter_tailSegments, ← filter_realTail, none_real, List.filter_nil]
    split at parent <;> cases parent
    rw [reals_nil]
    exact ⟨rfl, List.nil_prefix, .inl rfl⟩
  · next s rest some_real =>
    cases parent
    rw [← some_real]
    have front : realTail (realTail p.tailSegments).dropLast <+: p.tailSegments := by
      have shorter : (realTail p.tailSegments).dropLast <+: realTail p.tailSegments :=
        List.dropLast_prefix _
      exact (realTail_isPrefix _).trans (shorter.trans (realTail_isPrefix _))
    have bytes_front : leadBytes p.lead ++ joinSegments (realTail (realTail p.tailSegments).dropLast) <+:
        p.bytes := by
      rw [← p.lead_append_tail, List.prefix_append_right_inj]
      exact Text.joinWith_isPrefix slash front
    refine ⟨?_, bytes_front, isAbsolute_of_isPrefix bytes_front⟩
    rw [reals_lead_append front, filter_realTail, filter_dropLast_realTail (by simp [some_real]),
      filter_tailSegments]

end Path

end Renumber
