import Renumber.Proofs.Numbering.Placed
import Renumber.Proofs.Path.Join
import Renumber.Proofs.Pattern.Reformat

/-!
# Numbering what was numbered

Without wildcards in the pattern the destinations that may be tried for a file are the same
after it was given one of them. So where files that were in the way still are, and none is at
a destination that was chosen, the same destinations are chosen again.
-/

namespace Renumber.Pattern.Spec

variable {pattern : List Char} {source dir : Path} {n m : Nat} {d e : Option Nat}

theorem slash_notMem_nameText (p : Path) : '/' ∉ nameText p := by
  rw [nameText]
  cases named : p.fileName? with
  | none => exact List.not_mem_nil
  | some name =>
      intro member
      exact Path.slash_notMem_fileName named (Text.mem_of_mem_decodeLossy (by decide) member)

/-- A formatted name is a name. -/
theorem isFileName_formatName (no_star : '*' ∉ pattern) (no_mark : '?' ∉ pattern) (no_slash : '/' ∉ pattern)
    (usable : (parse pattern).isUsable = true) {name : List Char} (single : '/' ∉ name) (n : Nat)
    (d : Option Nat) : Path.IsFileName (Text.encode ((parse pattern).formatName name n d).text) := by
  obtain ⟨c, written, no_dot⟩ := exists_ne_dot no_star no_mark usable name n d
  have other : ∀ dots : List Char, (dots.all (· == '.')) = true →
      Text.encode ((parse pattern).formatName name n d).text ≠ Text.encode dots := by
    intro dots all same
    rw [Text.encode_injective same] at written
    exact no_dot (beq_iff_eq.1 (List.all_eq_true.1 all c written))
  refine ⟨Path.isReal_iff.2 ⟨other [] rfl, other ['.'] rfl⟩, other ['.', '.'] rfl, fun member => ?_⟩
  have slash := Text.mem_of_mem_encode (by decide) member
  obtain dot | in_pattern | in_name := mem_of_mem_formatName isOutside_slash slash
  · cases dot
  · exact no_slash in_pattern
  · exact single in_name

end Renumber.Pattern.Spec

namespace Renumber.Numbering

open Renumber.Pattern (Spec)

variable {g : Numbering} {pattern : List Char} {present present' : Path → Bool}
  {sourceKeys sourceKeys' placed : List PathKey} {source source' target : Path} {counter : Nat}
  {pairs : List (Path × Path)}

/-- The folder of the destinations that may be tried for a file. -/
def folderOf (g : Numbering) (source : Path) : Path :=
  (g.options.folder <|> source.parent?).getD ⟨[]⟩

/-- The name of a destination that may be tried for a file. -/
def nameOf (g : Numbering) (source : Path) (counter : Nat) (d : Option Nat) : List Char :=
  (g.spec.formatName (Spec.nameText source) counter d).text

theorem candidate_eq (g : Numbering) (source : Path) (n : Nat) (d : Option Nat) :
    g.candidate source n d = (g.folderOf source).join ⟨Text.encode (g.nameOf source n d)⟩ :=
  rfl

section

variable (read : g.spec = .parse pattern) (no_star : '*' ∉ pattern) (no_mark : '?' ∉ pattern)
  (no_slash : '/' ∉ pattern)

include read no_star no_mark no_slash

/-- What is written for a file is a name. -/
theorem isFileName_nameOf (source : Path) (n : Nat) (d : Option Nat) :
    Path.IsFileName (Text.encode (g.nameOf source n d)) := by
  have usable := g.usable
  rw [nameOf]
  rw [read] at usable ⊢
  exact Spec.isFileName_formatName no_star no_mark no_slash usable (Spec.slash_notMem_nameText source) n d

theorem isEmpty_candidate (source : Path) (n : Nat) (d : Option Nat) :
    (g.candidate source n d).isEmpty = false := by
  have reals := Path.reals_join (isFileName_nameOf read no_star no_mark no_slash source n d) (g.folderOf source)
  rw [← candidate_eq] at reals
  cases empty : (g.candidate source n d).isEmpty with
  | false => rfl
  | true =>
      rw [Path.reals, List.isEmpty_iff.1 empty] at reals
      exact absurd reals.symm (List.append_ne_nil_of_right_ne_nil _ (List.cons_ne_nil _ _))

/-- A destination is in the folder in which destinations are tried for it. -/
theorem folderOf_candidate {source : Path} (absolute : source.isAbsolute = true) (n : Nat) (d : Option Nat) :
    g.folderOf (g.candidate source n d) = g.folderOf source := by
  have named := isFileName_nameOf read no_star no_mark no_slash source n d
  rw [candidate_eq, folderOf, folderOf]
  cases g.options.folder with
  | some folder => rfl
  | none =>
      cases parent : source.parent? with
      | some q => exact congrArg (·.getD ⟨[]⟩) (Path.parent?_join absolute parent named)
      | none => exact congrArg (·.getD ⟨[]⟩) (Path.parent?_join_empty named)

/-- For a destination the names are written that are written for its source. -/
theorem nameOf_candidate (source : Path) (n m : Nat) (d e : Option Nat) :
    g.nameOf (g.candidate source n d) m e = g.nameOf source m e := by
  have named := isFileName_nameOf read no_star no_mark no_slash source n d
  have usable := g.usable
  have own : Spec.nameText (g.candidate source n d) = g.nameOf source n d := by
    rw [candidate_eq, Spec.nameText, Path.fileName?_join named, Option.map_some, Option.getD_some,
      Text.decodeLossy_encode]
  rw [nameOf, own, nameOf, nameOf]
  rw [read] at usable ⊢
  exact Spec.formatName_formatName no_star no_mark usable _ n m d e

/-- The destinations that may be tried for a file are those that may be tried for any of them. -/
theorem candidate_candidate {source : Path} (absolute : source.isAbsolute = true) (n m : Nat)
    (d e : Option Nat) : g.candidate (g.candidate source n d) m e = g.candidate source m e := by
  rw [candidate_eq, candidate_eq _ source m, folderOf_candidate read no_star no_mark no_slash absolute,
    nameOf_candidate read no_star no_mark no_slash]

end

/-! ## Placing files again -/

/-- The destinations that may be tried for sources. -/
def candidates (g : Numbering) : Nat → List Path → List Path
  | _, [] => []
  | counter, source :: rest =>
    g.decorators.map (g.candidate source counter) ++ candidates g (nextCounter counter) rest

/-- A file is placed where it was when the same destinations are tried, and those are free that
were. -/
theorem placeOne_again (unique : g.options.unique = true)
    (done : g.placeOne present sourceKeys placed source counter = .ok target)
    (same : ∀ d, g.candidate source' counter d = g.candidate source counter d)
    (foreign : ∀ d ∈ g.decorators, g.isForeign present sourceKeys (g.candidate source counter d) = true →
      g.isForeign present' sourceKeys' (g.candidate source counter d) = true)
    (own : g.isForeign present' sourceKeys' target = false) :
    g.placeOne present' sourceKeys' placed source' counter = .ok target := by
  rw [placeOne_eq_ok unique, List.findSome?_eq_some_iff] at done ⊢
  obtain ⟨before, d, after, all, found, taken⟩ := done
  obtain ⟨made, free⟩ := free?_eq_some.1 found
  refine ⟨before, d, after, all, free?_eq_some.2 ⟨(same d).trans made, ?_⟩, fun d' member => ?_⟩
  · rw [collides, Bool.or_eq_false_iff] at free ⊢
    exact ⟨free.1, own⟩
  · have tried : d' ∈ g.decorators := all ▸ List.mem_append_left _ member
    have was_taken := free?_eq_none.1 (taken d' member)
    rw [free?_eq_none, same d']
    rw [collides, Bool.or_eq_true] at was_taken ⊢
    exact was_taken.imp_right (foreign d' tried)

/-- Sources that were placed are placed again at their destinations. -/
theorem Places.again (unique : g.options.unique = true)
    (places : g.Places present sourceKeys placed counter pairs)
    (same : ∀ e ∈ pairs, ∀ n d, g.candidate e.2 n d = g.candidate e.1 n d)
    (foreign : ∀ p ∈ g.candidates counter (pairs.map Prod.fst),
      g.isForeign present sourceKeys p = true → g.isForeign present' sourceKeys' p = true)
    (own : ∀ e ∈ pairs, g.isForeign present' sourceKeys' e.2 = false) :
    g.Places present' sourceKeys' placed counter (pairs.map fun e => (e.2, e.2)) := by
  induction places with
  | nil => exact .nil
  | cons first others ih =>
      obtain ⟨same_first, same⟩ := List.forall_mem_cons.1 same
      obtain ⟨own_first, own⟩ := List.forall_mem_cons.1 own
      obtain ⟨foreign_first, foreign⟩ := List.forall_mem_append.1 foreign
      refine .cons ?_ (ih same foreign own)
      refine placeOne_again unique first (same_first _) (fun d tried => ?_) own_first
      exact foreign_first _ (List.mem_map_of_mem tried)

/-- Every source is placed at a destination that may be tried for it. -/
theorem Places.exists_candidate (unique : g.options.unique = true)
    (places : g.Places present sourceKeys placed counter pairs) :
    ∀ e ∈ pairs, ∃ n d, g.candidate e.1 n d = e.2 := by
  induction places with
  | nil => exact nofun
  | @cons placed counter source target rest first others ih =>
      obtain ⟨⟨d, -, made⟩, -⟩ := placeOne_ok unique first
      exact List.forall_mem_cons.2 ⟨⟨counter, d, made⟩, ih⟩

section

variable (read : g.spec = .parse pattern) (no_star : '*' ∉ pattern) (no_mark : '?' ∉ pattern)
  (no_slash : '/' ∉ pattern) (unique : g.options.unique = true)
  (places : g.Places present sourceKeys placed counter pairs)

include read no_star no_mark no_slash unique places

theorem Places.isEmpty_target : ∀ e ∈ pairs, e.2.isEmpty = false := by
  intro e member
  obtain ⟨n, d, made⟩ := places.exists_candidate unique e member
  rw [← made]
  exact isEmpty_candidate read no_star no_mark no_slash e.1 n d

theorem Places.candidate_target (absolute : ∀ e ∈ pairs, e.1.isAbsolute = true) :
    ∀ e ∈ pairs, ∀ n d, g.candidate e.2 n d = g.candidate e.1 n d := by
  intro e member m d'
  obtain ⟨n, d, made⟩ := places.exists_candidate unique e member
  rw [← made]
  exact candidate_candidate read no_star no_mark no_slash (absolute e member) n m d d'

end

end Renumber.Numbering
