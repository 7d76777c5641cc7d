import Renumber.Proofs.Path.Key

/-!
# Names in folders

A path that is joined of a folder and a single name has this name and one more component than
the folder. Where the folder is the parent of an absolute path, it is the parent of the joined
path as well, in the same spelling.
-/

namespace Renumber.Path

variable {p q base : Path} {name : List UInt8} {front : List (List UInt8)}

/-- Bytes that are the name of a file. -/
structure IsFileName (name : List UInt8) : Prop where
  real : isReal name = true
  not_up : name ≠ [dot, dot]
  single : slash ∉ name

/-- A name is one segment. -/
theorem segments_name (single : slash ∉ name) : segments name = [name] :=
  Text.splitOn_of_not_mem single

theorem not_isAbsolute_name (single : slash ∉ name) : (Path.mk name).isAbsolute = false := by
  cases name with
  | nil => rfl
  | cons b name =>
      rw [List.mem_cons, not_or] at single
      rw [isAbsolute, List.head?_cons, beq_eq_false_iff_ne, ne_eq, Option.some.injEq]
      exact Ne.symm single.1

/-- A single name is joined with a separator, unless there is one or nothing is in front. -/
theorem join_name (single : slash ∉ name) (base : Path) :
    base.bytes = [] ∧ base.join ⟨name⟩ = ⟨name⟩ ∨
      (∃ bytes, base.bytes = bytes ++ [slash] ∧ base.join ⟨name⟩ = ⟨bytes ++ slash :: name⟩) ∨
      base.bytes.getLast? ≠ some slash ∧ base.join ⟨name⟩ = ⟨base.bytes ++ slash :: name⟩ := by
  rw [join, not_isAbsolute_name single, if_neg Bool.false_ne_true]
  by_cases empty : base.bytes = []
  · rw [if_pos (.inl empty), empty]
    exact .inl ⟨rfl, rfl⟩
  · by_cases slashed : base.bytes.getLast? = some slash
    · obtain ⟨bytes, all⟩ := List.getLast?_eq_some_iff.1 slashed
      rw [if_pos (.inr slashed), all, List.append_assoc]
      exact .inr (.inl ⟨bytes, rfl, rfl⟩)
    · rw [if_neg (not_or.2 ⟨empty, slashed⟩)]
      exact .inr (.inr ⟨slashed, rfl⟩)

theorem reals_join (named : IsFileName name) (base : Path) :
    (base.join ⟨name⟩).reals = base.reals ++ [name] := by
  have single := named.single
  have own : [name].filter isReal = [name] := List.filter_cons_of_pos named.real
  have behind : ∀ bytes, reals ⟨bytes ++ slash :: name⟩ = reals ⟨bytes⟩ ++ [name] := by
    intro bytes
    rw [reals, segments_append_slash, List.filter_append, segments_name single, own]
    rfl
  obtain ⟨empty, joined⟩ | ⟨bytes, all, joined⟩ | ⟨-, joined⟩ := join_name single base
  · rw [joined, reals, segments_name single, own, reals, empty]
    rfl
  · have shown : base.reals = reals ⟨bytes⟩ := by
      rw [reals, reals, all, segments_append_slash, List.filter_append]
      exact List.append_nil _
    rw [joined, behind, shown]
  · rw [joined, behind]

/-- What is joined with a name has that name. -/
theorem fileName?_join (named : IsFileName name) (base : Path) :
    (base.join ⟨name⟩).fileName? = some name := by
  have last : (base.join ⟨name⟩).components.getLast? = some (.name name) := by
    rw [components_eq, reals_join named, List.map_append, ← List.append_assoc, List.map_singleton,
      List.getLast?_concat, componentOf, if_neg named.not_up]
  rw [fileName?, last]

/-- The bytes of a name hold no separator. -/
theorem slash_notMem_fileName {n : Name} (named : p.fileName? = some n) : slash ∉ n := by
  have last : p.components.getLast? = some (.name n) := by
    rw [fileName?] at named
    split at named
    · next found => rw [← Option.some.inj named, found]
    · cases named
  have member := List.mem_of_getLast? last
  rw [components_eq, List.mem_append] at member
  obtain in_lead | in_reals := member
  · obtain ⟨none, -⟩ | ⟨root, -⟩ | ⟨here, -⟩ := p.lead_cases
    · rw [none] at in_lead
      cases in_lead
    · rw [root] at in_lead
      cases List.mem_singleton.1 in_lead
    · rw [here] at in_lead
      cases List.mem_singleton.1 in_lead
  · obtain ⟨s, member, named⟩ := List.mem_map.1 in_reals
    rw [componentOf] at named
    split at named
    · cases named
    · cases named
      exact Text.not_mem_of_mem_splitOn (List.mem_filter.1 member).1

/-! ## Parents of joined paths -/

theorem parent?_of_tailSegments (real : isReal name = true) (tail : p.tailSegments = front ++ [name]) :
    p.parent? = some ⟨leadBytes p.lead ++ joinSegments (realTail front)⟩ := by
  have whole : realTail (front ++ [name]) = front ++ [name] := by
    rw [realTail_eq, List.rdropWhile_concat_neg _ _ _ (by simp [real])]
  have shorter : (front ++ [name]).dropLast = front := List.dropLast_concat
  rw [parent?, tail, whole]
  cases all : front ++ [name] with
  | nil => exact absurd all (by simp)
  | cons s rest =>
      rw [all] at shorter
      dsimp only
      rw [shorter]

/-- The parent of an absolute path is written as the root and segments of which the last counts. -/
theorem parent?_of_isAbsolute (absolute : p.isAbsolute = true) (parent : p.parent? = some q) :
    ∃ front, q = ⟨slash :: joinSegments front⟩ ∧ realTail front = front ∧ ∀ s ∈ front, slash ∉ s := by
  have root := (isAbsolute_iff_lead p).1 absolute
  rw [parent?] at parent
  split at parent
  · rw [root, if_neg (by decide)] at parent
    cases parent
  · next s rest kept =>
    cases parent
    rw [root, ← kept]
    refine ⟨_, rfl, List.rdropWhile_idempotent _ _, fun s member => p.slash_notMem_tailSegments s ?_⟩
    exact (realTail_isPrefix _).subset (List.dropLast_subset _ ((realTail_isPrefix _).subset member))

theorem lead_root (bytes : List UInt8) : lead ⟨slash :: bytes⟩ = some .root :=
  (isAbsolute_iff_lead ⟨slash :: bytes⟩).1 rfl

theorem tailSegments_root (bytes : List UInt8) : tailSegments ⟨slash :: bytes⟩ = segments bytes := by
  rw [tailSegments, lead_root]
  rfl

/-- Next to an absolute path every name has the same parent. -/
theorem parent?_join (absolute : p.isAbsolute = true) (parent : p.parent? = some q)
    (named : IsFileName name) : (q.join ⟨name⟩).parent? = some q := by
  have single := named.single
  obtain ⟨front, rfl, counts, free⟩ := parent?_of_isAbsolute absolute parent
  have below : ∀ bytes, segments bytes = front ++ [name] →
      parent? ⟨slash :: bytes⟩ = some ⟨slash :: joinSegments front⟩ := by
    intro bytes all
    rw [parent?_of_tailSegments named.real ((tailSegments_root bytes).trans all), lead_root, counts]
    rfl
  by_cases at_root : front = []
  · subst at_root
    rw [join, not_isAbsolute_name single, if_neg Bool.false_ne_true, if_pos (.inr rfl)]
    exact below name (segments_name single)
  · have written := segments_joinSegments at_root free
    have joined : (Path.mk (slash :: joinSegments front)).join ⟨name⟩ =
        ⟨slash :: (joinSegments front ++ slash :: name)⟩ := by
      obtain ⟨empty, -⟩ | ⟨bytes, all, -⟩ | ⟨-, joined⟩ := join_name single ⟨slash :: joinSegments front⟩
      · cases empty
      · -- the last segment would be empty, and would not count
        cases bytes with
        | nil =>
            rw [(List.cons.inj all).2] at written
            subst written
            cases counts
        | cons b bytes =>
            have ends : joinSegments front = bytes ++ slash :: [] := (List.cons.inj all).2
            rw [ends, segments_append_slash] at written
            have cut : realTail (segments bytes ++ segments []) = realTail (segments bytes) :=
              List.rdropWhile_concat_pos _ _ _ rfl
            have fewer := (realTail_isPrefix (segments bytes)).length_le
            rw [← cut, written, counts, ← written, List.length_append] at fewer
            exact absurd fewer (Nat.not_succ_le_self _)
      · exact joined
    rw [joined]
    exact below _ (by rw [segments_append_slash, written, segments_name single])

/-- A name by itself has the empty path as its parent. -/
theorem parent?_join_empty (named : IsFileName name) :
    ((Path.mk []).join ⟨name⟩).parent? = some ⟨[]⟩ := by
  obtain ⟨real, -, single⟩ := named
  have alone : (Path.mk []).join ⟨name⟩ = ⟨name⟩ := by
    rw [join, not_isAbsolute_name single, if_neg Bool.false_ne_true, if_pos (.inl rfl)]
    rfl
  rw [alone]
  obtain ⟨no_lead, tail, -⟩ | ⟨-, bytes, -⟩ | ⟨-, bytes, -, ends⟩ := (Path.mk name).lead_cases
  · have one : (Path.mk name).tailSegments = [] ++ [name] := tail.trans (segments_name single)
    rw [parent?_of_tailSegments real one, no_lead]
    rfl
  · have bytes : name = slash :: name.tail := bytes
    rw [bytes] at single
    exact absurd List.mem_cons_self single
  · have bytes : name = dot :: name.tail := bytes
    have ends : name.tail = [] ∨ name.tail.head? = some slash := ends
    obtain none_more | slashed := ends
    · rw [none_more] at bytes
      rw [bytes] at real
      cases real
    · rw [bytes] at single
      exact absurd (List.mem_cons_of_mem _ (List.mem_of_mem_head? slashed)) single

/-! ## Parents of longer names -/

theorem isReal_append (real : isReal name = true) (suffix : List UInt8) :
    isReal (name ++ suffix) = true := by
  obtain ⟨some_byte, other⟩ := isReal_iff.1 real
  refine isReal_iff.2 ⟨List.append_ne_nil_of_left_ne_nil some_byte _, fun same => ?_⟩
  obtain ⟨empty, -⟩ | ⟨same, -⟩ := List.append_eq_singleton_iff.1 same
  · exact some_byte empty
  · exact other same

/-- More bytes behind the name leave the lead and the segments in front. -/
theorem tailSegments_append {suffix : List UInt8} (all : segments p.bytes = front ++ [name])
    (real : isReal name = true) (single : slash ∉ suffix) :
    lead ⟨p.bytes ++ suffix⟩ = p.lead ∧ ∃ front', p.tailSegments = front' ++ [name] ∧
      tailSegments ⟨p.bytes ++ suffix⟩ = front' ++ [name ++ suffix] := by
  obtain ⟨some_byte, other⟩ := isReal_iff.1 real
  have longer := segments_append all single
  have alone : ∀ {s : List UInt8}, [s] = front ++ [name] → s = name := by
    intro s same
    have last := congrArg List.getLast? same
    rw [List.getLast?_concat] at last
    exact Option.some.inj last
  -- the first segment is in front of the name if it does not count
  have behind : ∀ {s : List UInt8} {segs : List (List UInt8)}, segs ≠ [] → s :: segs = front ++ [name] →
      ∃ front', front = s :: front' ∧ segs = front' ++ [name] := by
    intro s segs more same
    cases front with
    | nil => exact absurd (List.cons.inj same).2 more
    | cons s' front =>
        obtain ⟨rfl, rest⟩ := List.cons.inj same
        exact ⟨front, rfl, rest⟩
  obtain ⟨none_lead, tail, -⟩ | ⟨root, bytes, tail⟩ | ⟨here, bytes, tail, ends⟩ := p.lead_cases
  · have lead' : lead ⟨p.bytes ++ suffix⟩ = none := by
      obtain ⟨bytes⟩ := p
      rcases bytes with _ | ⟨b, _ | ⟨c, rest⟩⟩
      · exact absurd (alone all).symm some_byte
      · have no_slash : b ≠ slash := by
          rintro rfl
          cases none_lead
        have no_dot : b ≠ dot := by
          rintro rfl
          cases none_lead
        cases suffix <;> simp [lead, no_slash, no_dot]
      · exact none_lead
    refine ⟨lead'.trans none_lead.symm, front, tail.trans all, ?_⟩
    rw [tailSegments, lead', if_neg (by decide)]
    exact longer
  · rw [bytes, segments_slash] at all
    obtain ⟨front', rfl, rest⟩ := behind (segments_ne_nil _) all
    have bytes' : p.bytes ++ suffix = slash :: (p.bytes.tail ++ suffix) := congrArg (· ++ suffix) bytes
    rw [bytes', lead_root, tailSegments_root, root]
    exact ⟨rfl, front', tail.trans rest, segments_append rest single⟩
  · obtain none_more | more := ends
    · rw [bytes, none_more] at all
      exact absurd (alone all).symm other
    · obtain ⟨rest, more⟩ := List.head?_eq_some_iff.1 more
      have first : segments p.bytes = [dot] :: segments rest := by
        rw [bytes, more]
        exact Text.splitOn_append_cons (s := [dot]) (by decide) rest
      rw [first] at all
      obtain ⟨front', rfl, rest_all⟩ := behind (segments_ne_nil _) all
      have bytes' : p.bytes ++ suffix = dot :: slash :: (rest ++ suffix) := by
        rw [bytes, more]
        rfl
      rw [bytes', here]
      refine ⟨rfl, [] :: front', ?_, ?_⟩
      · rw [tail, more, segments_slash, rest_all]
        rfl
      · have tail' : tailSegments ⟨dot :: slash :: (rest ++ suffix)⟩ = segments (slash :: (rest ++ suffix)) := rfl
        rw [tail', segments_slash, segments_append rest_all single]
        rfl

/-- With more bytes behind its name a path has the same parent. -/
theorem parent?_append {suffix : String} (all : segments p.bytes = front ++ [name])
    (real : isReal name = true) (single : slash ∉ Text.bytesOf suffix) :
    (p.append suffix).parent? = p.parent? := by
  obtain ⟨same, front', tail, tail'⟩ := tailSegments_append all real single
  rw [append, parent?_of_tailSegments (isReal_append real _) tail', same,
    parent?_of_tailSegments real tail]

end Renumber.Path
