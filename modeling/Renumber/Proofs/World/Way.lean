import Renumber.Proofs.Disk.Way
import Renumber.Proofs.World.Rename

/-!
# Making the folders above a path

Whatever is made on the way to a path, by however many steps and whether or not they
succeed, is a folder on that way.
-/

namespace Renumber

namespace World

open Outcome

/-- More folders, and all of them on the way of a path. -/
structure GrowsToward (p : Path) (w w' : World) : Prop where
  grows : w.Grows w'
  new : w.disk.Unlinked → ∀ loc, loc ∉ Disk.wayOf w.cwd p → w'.disk.shape? loc = w.disk.shape? loc

variable {p q : Path}

theorem GrowsToward.refl (p : Path) (w : World) : GrowsToward p w w :=
  ⟨.refl w, fun _ _ _ => rfl⟩

theorem GrowsToward.trans (p : Path) (u v w : World) (first : GrowsToward p u v)
    (second : GrowsToward p v w) : GrowsToward p u w where
  grows := first.grows.trans _ _ _ second.grows
  new unlinked loc off := by
    have unlinked' := first.grows.disk.unlinked unlinked
    have off' : loc ∉ Disk.wayOf v.cwd p := by rwa [first.grows.cwd]
    rw [second.new unlinked' loc off', first.new unlinked loc off]

/-- One path is above another or that path itself. -/
def LeadsUp (q p : Path) : Prop :=
  q.isEmpty = true ∨ q.reals <+: p.reals ∧ q.isAbsolute = p.isAbsolute

theorem LeadsUp.refl (p : Path) : LeadsUp p p :=
  .inr ⟨List.prefix_rfl, rfl⟩

theorem LeadsUp.parent {r : Path} (up : LeadsUp q p) (parent : q.parent? = some r) :
    LeadsUp r p := by
  obtain ⟨reals, -, empty | absolute⟩ := Path.parent?_spec parent
  · exact .inl empty
  · obtain none_above | ⟨front, same⟩ := up
    · have bytes : q = ⟨[]⟩ := by
        obtain ⟨bytes⟩ := q
        exact congrArg Path.mk (List.isEmpty_iff.1 none_above)
      rw [bytes] at parent
      cases parent
    · refine .inr ⟨?_, absolute.trans same⟩
      have shorter : q.reals.dropLast <+: q.reals := List.dropLast_prefix _
      rw [reals]
      exact shorter.trans front

theorem leadsUp_of_mem_ancestorsFrom {fuel : Nat} (up : LeadsUp q p) {r : Path}
    (member : r ∈ ancestorsFrom fuel q) : LeadsUp r p := by
  induction fuel generalizing q with
  | zero => cases member
  | succ fuel ih =>
      rw [ancestorsFrom] at member
      split at member
      · next above parent =>
        obtain rfl | later := List.mem_cons.1 member
        · exact up.parent parent
        · exact ih (up.parent parent) later
      · cases member

theorem act_makeFolder_growsToward (up : LeadsUp q p) (given : isGiven q = false) :
    Along (GrowsToward p) (act (.makeFolder q)) := by
  intro w
  refine ⟨act_makeFolder_grows q w, fun unlinked loc off => ?_⟩
  rw [run_act]
  cases made : (Deed.makeFolder q).doOn w.disk w.clock w.cwd with
  | error fault => rfl
  | ok disk =>
      obtain ⟨folder, name, slashed, last, -, -, rfl⟩ := Disk.makeFolder_ok made
      have on_way : folder ++ [name] ∈ Disk.wayOf w.cwd p := by
        obtain empty | ⟨front, absolute⟩ := up
        · simp [isGiven, empty] at given
        · have start : Disk.startOf w.cwd q = Disk.startOf w.cwd p := by
            rw [Disk.startOf, Disk.startOf, absolute]
          rw [← Disk.addressOf_of_findLast unlinked last]
          exact Disk.wayOf_subset front start (Disk.addressOf_mem_wayOf _ _)
      rw [afterDeed_disk, Disk.shape?_stampFolder, Disk.shape?_put, if_neg]
      rintro rfl
      exact off on_way

theorem ensureFolder_growsToward (up : LeadsUp q p) (given : isGiven q = false) :
    Along (GrowsToward p) (ensureFolder q) := by
  have trans := GrowsToward.trans p
  have refl := GrowsToward.refl p
  refine .tryCatch trans (act_makeFolder_growsToward up given) fun fault => ?_
  refine .bind trans (.get refl) fun w => ?_
  exact .ite (fun _ => .pure refl _) fun _ => .throw refl _

theorem makeFoldersFrom_growsToward {above : List Path} (up : LeadsUp q p)
    (each : ∀ r ∈ above, LeadsUp r p) : Along (GrowsToward p) (makeFoldersFrom q above) := by
  have trans := GrowsToward.trans p
  have refl := GrowsToward.refl p
  induction above generalizing q with
  | nil =>
      refine .ite (fun _ => .pure refl _) fun given => ?_
      exact ensureFolder_growsToward up (by simpa using given)
  | cons r rest ih =>
      rw [List.forall_mem_cons] at each
      refine .ite (fun _ => .pure refl _) fun given => ?_
      have ensured := ensureFolder_growsToward up (by simpa using given)
      refine .tryCatch trans ensured fun fault => ?_
      refine .ite (fun _ => ?_) fun _ => .throw refl _
      exact .bind trans (ih each.1 each.2) fun _ => ensured

/-- The folders that are made for a file to stand in are on the way of its path. -/
theorem makeParent_growsToward (p : Path) : Along (GrowsToward p) (makeParent p) := by
  rw [makeParent]
  split
  · next folder parent =>
    refine .ite (fun _ => .pure (GrowsToward.refl p) _) fun _ => ?_
    have up := (LeadsUp.refl p).parent parent
    exact makeFoldersFrom_growsToward up fun r member => leadsUp_of_mem_ancestorsFrom up member
  · exact .pure (GrowsToward.refl p) _

end World

end Renumber
