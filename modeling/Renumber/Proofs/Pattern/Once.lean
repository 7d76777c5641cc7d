import Renumber.Proofs.Outcome
import Renumber.Proofs.Pattern.Search

/-!
# Solving every place once

The search that writes outcomes down answers what the plain search answers. What is kept
all along is that every outcome of the table is the one that the plain search has for the
tokens and the characters that are left.
-/

namespace Renumber.Pattern

variable {tokens : List Token} {text : List Char} {α : Type}

instance : Std.TransCmp comparePlaces := by
  unfold comparePlaces
  infer_instance

theorem comparePlaces_eq_iff {a b : Nat × Nat} : comparePlaces a b = .eq ↔ a = b := by
  rw [comparePlaces, compareLex, Ordering.then_eq_eq, compareOn, compareOn, Nat.compare_eq_eq,
    Nat.compare_eq_eq, Prod.ext_iff]

/-- Every outcome of the table is that of the plain search at its place. -/
def Known.Sound (tokens : List Token) (text : List Char) (known : Known) : Prop :=
  ∀ place outcome, known[place]? = some outcome → ∀ rest, rest <:+ tokens → ∀ s, s <:+ text →
    place = (rest.length, s.length) → outcome = search rest s

/-- Started with sound outcomes the action answers `a` and leaves sound outcomes. -/
def Solves (tokens : List Token) (text : List Char) (find : StateM Known α) (a : α) : Prop :=
  ∀ known : Known, known.Sound tokens text →
    (find.run known).1 = a ∧ Known.Sound tokens text (find.run known).2

theorem solves_pure (a : α) : Solves tokens text (pure a) a :=
  fun _ sound => ⟨rfl, sound⟩

theorem Solves.bind {β : Type} {find : StateM Known α} {next : α → StateM Known β} {a : α} {b : β}
    (first : Solves tokens text find a) (second : Solves tokens text (next a) b) :
    Solves tokens text (find >>= next) b := by
  intro known sound
  obtain ⟨answer, sound⟩ := first known sound
  have := second _ sound
  rw [← answer] at this
  exact this

/-- An end of a list is told by its length. -/
theorem eq_of_suffix_length {α : Type} {l a b : List α} (left : a <:+ l) (right : b <:+ l)
    (long : a.length = b.length) : a = b :=
  (List.suffix_of_suffix_length_le left right long.le).eq_of_length long

theorem Known.Sound.insert {known : Known} {rest : List Token} {s : List Char}
    (sound : known.Sound tokens text) (part : rest <:+ tokens) (ending : s <:+ text) :
    Known.Sound tokens text (known.insert (rest.length, s.length) (search rest s)) := by
  intro place outcome found rest' part' s' ending' same
  rw [Std.TreeMap.getElem?_insert] at found
  split at found
  next here =>
    rw [comparePlaces_eq_iff] at here
    obtain ⟨fewer, shorter⟩ := Prod.mk.inj (here.trans same)
    rw [← Option.some.inj found, eq_of_suffix_length part part' fewer,
      eq_of_suffix_length ending ending' shorter]
  next => exact sound place outcome found rest' part' s' ending' same

/-- An outcome that is known is answered, and one that is not is found and written down. -/
theorem run_once (tokens chars : Nat) (find : StateM Known Outcome) (known : Known) :
    (once tokens chars find).run known = match known[(tokens, chars)]? with
      | some outcome => (outcome, known)
      | none => ((find.run known).1,
          (find.run known).2.insert (tokens, chars) (find.run known).1) := by
  have now : (get : StateM Known Known).run known = (known, known) := rfl
  rw [once, Outcome.run_bindState, now]
  dsimp only
  cases known[(tokens, chars)]? <;> rfl

theorem solves_once {rest : List Token} {s : List Char} {find : StateM Known Outcome}
    (part : rest <:+ tokens) (ending : s <:+ text)
    (finds : Solves tokens text find (search rest s)) :
    Solves tokens text (once rest.length s.length find) (search rest s) := by
  intro known sound
  rw [run_once]
  cases looked : known[(rest.length, s.length)]? with
  | some outcome => exact ⟨sound _ _ looked rest part s ending rfl, sound⟩
  | none =>
      obtain ⟨answer, sound⟩ := finds known sound
      dsimp only
      rw [answer]
      exact ⟨rfl, sound.insert part ending⟩

/-- Trying one thing after the other finds the first match. -/
theorem solves_firstMatch {find : α → StateM Known Outcome} {f : α → Outcome} {l : List α}
    (each : ∀ a ∈ l, Solves tokens text (find a) (f a)) :
    Solves tokens text (firstMatch find l) (l.findSome? f) := by
  induction l with
  | nil => exact solves_pure none
  | cons a l ih =>
      obtain ⟨own, later⟩ := List.forall_mem_cons.1 each
      apply own.bind
      rw [List.findSome?_cons]
      cases f a with
      | some counter => exact solves_pure (some counter)
      | none => exact ih later

theorem solves_searchOnce {rest : List Token} {s : List Char} (part : rest <:+ tokens)
    (ending : s <:+ text) : Solves tokens text (searchOnce rest s) (search rest s) := by
  induction rest generalizing s with
  | nil => exact solves_once part ending (solves_pure _)
  | cons t rest ih =>
      have behind : rest <:+ tokens := (List.suffix_cons t rest).trans part
      cases t with
      | literal c =>
          apply solves_once part ending
          cases s with
          | nil => exact solves_pure none
          | cons a s =>
              rw [search]
              dsimp only
              split
              next => exact ih behind ((List.suffix_cons a s).trans ending)
              next => exact solves_pure none
      | anyOne =>
          apply solves_once part ending
          cases s with
          | nil => exact solves_pure none
          | cons a s => exact ih behind ((List.suffix_cons a s).trans ending)
      | anyRest =>
          apply solves_once part ending
          apply solves_firstMatch
          intro s' member
          exact ih behind ((mem_suffixes_iff.1 member).trans ending)
      | counter style =>
          apply solves_once part ending
          apply solves_firstMatch
          rintro ⟨value, used⟩ -
          exact (ih behind ((List.drop_suffix used s).trans ending)).bind (solves_pure _)

/-- Solving every place once makes no difference to the answer. -/
theorem matchTokens_eq_search (tokens : List Token) (text : List Char) :
    matchTokens tokens text = search tokens text := by
  have nothing : Known.Sound tokens text ∅ := by
    intro place outcome found
    rw [Std.TreeMap.getElem?_emptyc] at found
    cases found
  exact (solves_searchOnce List.suffix_rfl List.suffix_rfl ∅ nothing).1

end Renumber.Pattern
