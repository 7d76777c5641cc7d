import Renumber.Proofs.Disk.Descent
import Renumber.Proofs.Disk.Plain
import Renumber.Proofs.Path.Letters
import Renumber.Proofs.Path.Map
import Renumber.Proofs.UndoLog.Unfinished
import Renumber.Proofs.World.Sample
import Renumber.Request.Sources

/-!
# The sources of a request

What the paths of a request stand for is absolute and there, and each path comes once. That a path
can be logged is only asked of what was given. Links and the working folder may lead from there to
names that are not text, and a file may be moved to such a name.
-/

namespace Renumber

/-! ## Repeats -/

section

variable {seen paths : List Path} {p q : Path}

theorem mem_dropRepeats (kept : q ∈ dropRepeats seen paths) : q ∈ paths ∧ seen.any q.same = false := by
  induction paths generalizing seen with
  | nil => cases kept
  | cons p rest ih =>
      rw [dropRepeats] at kept
      split at kept
      · exact (ih kept).imp_left (List.mem_cons_of_mem p)
      · next new =>
        obtain rfl | later := List.mem_cons.1 kept
        · exact ⟨List.mem_cons_self, Bool.eq_false_iff.2 new⟩
        · obtain ⟨member, apart⟩ := ih later
          rw [List.any_cons, Bool.or_eq_false_iff] at apart
          exact ⟨List.mem_cons_of_mem p member, apart.2⟩

/-- No path is left twice, in whatever spellings. -/
theorem dropRepeats_pairwise (seen paths : List Path) :
    (dropRepeats seen paths).Pairwise fun p q => p.same q = false := by
  induction paths generalizing seen with
  | nil => exact .nil
  | cons p rest ih =>
      rw [dropRepeats]
      split
      · exact ih seen
      · refine List.pairwise_cons.2 ⟨fun q later => ?_, ih _⟩
        have apart := (mem_dropRepeats later).2
        rw [List.any_cons, Bool.or_eq_false_iff, Path.same_comm] at apart
        exact apart.1

/-- The first of all paths that are the same is kept, unless one of them was seen before. -/
theorem dropRepeats_eq (seen paths : List Path) :
    dropRepeats seen paths = (paths.filter fun p => !seen.any p.same).eraseDupsBy Path.same := by
  induction paths generalizing seen with
  | nil => rfl
  | cons p rest ih =>
      rw [dropRepeats, ih, ih]
      split
      · next old => rw [List.filter_cons_of_neg (by simp [old])]
      · next new =>
        rw [List.filter_cons_of_pos (by simpa using new), List.eraseDupsBy_cons, List.filter_filter]
        simp only [List.any_cons, Bool.not_or, Bool.decide_eq_false]

theorem dropRepeats_nil (paths : List Path) : dropRepeats [] paths = paths.eraseDupsBy Path.same := by
  have all : (paths.filter fun p => !([] : List Path).any p.same) = paths :=
    List.filter_eq_self.2 fun _ _ => rfl
  rw [dropRepeats_eq, all]

end

/-! ## Resolved paths -/

theorem Path.isAbsolute_join {base : Path} (absolute : base.isAbsolute = true) (p : Path) :
    (base.join p).isAbsolute = true := by
  have front : ∀ more, (Path.mk (base.bytes ++ more)).isAbsolute = true := by
    intro more
    obtain ⟨b, rest, bytes⟩ := List.exists_cons_of_ne_nil (l := base.bytes) (by
      intro empty
      rw [Path.isAbsolute, empty] at absolute
      cases absolute)
    rw [Path.isAbsolute, bytes] at absolute ⊢
    exact absolute
  rw [Path.join]
  split
  · next root => exact root
  · split
    · exact front _
    · exact front _

/-- No segment of a path without zero bytes holds one. -/
theorem Path.zeroFree_segments {p : Path} (free : 0 ∉ p.bytes) : ∀ s ∈ segments p.bytes, 0 ∉ s := by
  intro s member inside
  refine free ?_
  rw [← joinSegments_segments p.bytes]
  exact Text.subset_joinWith member inside

theorem Disk.zeroFree_of_checkText {p : Path} (text : checkText p = .ok ()) : 0 ∉ p.bytes := by
  intro zero
  rw [checkText, if_pos (List.contains_iff_mem.2 zero)] at text
  cases text

namespace World

variable {w : World} {loc : Location} {e : Entry}

theorem segments_pathOf (named : ∀ n ∈ loc, Path.slash ∉ n) :
    Path.segments (pathOf loc).bytes = [] :: if loc = [] then [[]] else loc := by
  rw [pathOf, Path.segments_slash]
  split
  · next root =>
    subst root
    rfl
  · next below => rw [Path.segments_joinSegments below named]

/-- The path of a location leads to what stands there. -/
theorem present_pathOf (stands : w.disk.Stands (fun n => 0 ∉ n) loc) (there : w.disk.get? loc = some e)
    (short : (pathOf loc).bytes.length ≤ Disk.maxPath) : w.present (pathOf loc) = true := by
  have free : 0 ∉ (pathOf loc).bytes := by
    intro zero
    obtain separates | zero := List.mem_cons.1 zero
    · cases separates
    · obtain separates | ⟨name, member, inside⟩ := Text.mem_joinWith zero
      · cases separates
      · exact (stands.names name member).known inside
  have text : Disk.checkText (pathOf loc) = .ok () := by
    have some_byte : (pathOf loc).isEmpty = false := rfl
    rw [Disk.checkText, if_neg (mt List.contains_iff_mem.1 free), some_byte, if_neg Bool.false_ne_true,
      if_neg (Nat.not_lt.2 short)]
  have walked : w.disk.walkLeg false [] (Path.segments (pathOf loc).bytes) = .done (.ok (.taken loc e)) := by
    rw [segments_pathOf fun name member => (stands.names name member).single,
      Disk.walkLeg_skip_cons Path.isReal_nil]
    split
    · next root =>
      subst root
      rw [Disk.walkLeg_skip_cons Path.isReal_nil, Disk.walkLeg_nil, there]
    · exact stands.walk there
  have found : w.disk.findEntry w.cwd false (pathOf loc) = .ok (loc, e) := by
    refine Disk.findEntry_eq_ok.2 ⟨text, ?_⟩
    have root : Disk.startOf w.cwd (pathOf loc) = [] := rfl
    rw [root, Disk.maxLegs, Disk.walkFrom, walked]
  rw [present, Disk.present, found]
  rfl

/-- A path is resolved to the path of what it leads to, which is short enough. -/
theorem exists_of_resolve? {p q : Path} (resolved : w.resolve? p = some q) :
    ∃ loc e, w.disk.findEntry w.cwd true p = .ok (loc, e) ∧ pathOf loc = q ∧
      q.bytes.length ≤ Disk.maxPath := by
  rw [resolve?] at resolved
  split at resolved
  · next loc e found =>
    split at resolved
    · cases resolved
    · next short =>
      cases resolved
      exact ⟨loc, e, found, rfl, Nat.not_lt.1 short⟩
  · cases resolved

/-- What an absolute path is resolved to is there. -/
theorem present_of_resolve? {p q : Path} (links : w.disk.LinksTo fun n => 0 ∉ n)
    (absolute : p.isAbsolute = true) (resolved : w.resolve? p = some q) : w.present q = true := by
  obtain ⟨loc, e, found, rfl, short⟩ := exists_of_resolve? resolved
  have free := Path.zeroFree_segments (Disk.zeroFree_of_checkText (Disk.findEntry_eq_ok.1 found).1)
  have stands := Disk.stands_of_findEntry links absolute (fun s member _ => free s member) found
  exact present_pathOf stands (Disk.get?_of_findEntry found) short

/-- A text is resolved to a text if links lead along texts only. -/
theorem isText_of_resolve? {p q : Path} (links : w.disk.LinksTo fun n => (Path.mk n).IsText)
    (absolute : p.isAbsolute = true) (text : p.IsText) (resolved : w.resolve? p = some q) : q.IsText := by
  obtain ⟨loc, e, found, rfl, -⟩ := exists_of_resolve? resolved
  have known : ∀ s ∈ Path.segments p.bytes, Disk.IsName s → (Path.mk s).IsText :=
    fun s member name => Path.isText_iff_reals.1 text s (List.mem_filter.2 ⟨member, name.1⟩)
  have stands := Disk.stands_of_findEntry links absolute known found
  have reals : (pathOf loc).reals = loc := by
    rw [pathOf, Path.reals_root, Path.filter_segments_joinSegments fun n member => (stands.names n member).single]
    exact List.filter_eq_self.2 fun n member => (stands.names n member).isName.1
  rw [Path.isText_iff_reals, reals]
  exact fun n member => (stands.names n member).known

end World

/-- The targets of all links. -/
def Disk.links (d : Disk) : List Path :=
  d.entries.toList.filterMap fun (_, e) =>
    match e with
    | .link target => some target
    | _ => none

theorem Disk.mem_links {d : Disk} {loc : Location} {target : Path}
    (there : d.get? loc = some (.link target)) : target ∈ d.links :=
  List.mem_filterMap.2 ⟨_, mem_entries there, rfl⟩

/-! ## Commands on the sources -/

/-- A command on files that was built from a path: it moves what is there, or writes states of it. -/
def Command.IsBuiltFrom (p : Path) : Command → Prop
  | rename source _ => source = p
  | touch former target => former.path = p ∧ target.path = p
  | _ => False

/-- A command that was built from a path is logged exactly when the path is text, and with it where
the command moves the file. -/
theorem UndoLog.fault_write_of_isBuiltFrom {c : Command} {p : Path} (built : c.IsBuiltFrom p) :
    (write [{ kind := c.kind, commands := [c] }]).fault = none ↔
      p.IsText ∧ ∀ target, c = .rename p target → target.IsText := by
  cases c with
  | rename source target =>
      obtain rfl : source = p := built
      rw [fault_write_alone rfl]
      constructor
      · rintro ⟨text, other⟩
        exact ⟨text, fun target' same => (Command.rename.inj same).2 ▸ other⟩
      · rintro ⟨text, other⟩
        exact ⟨text, other target rfl⟩
  | touch former target =>
      obtain ⟨rfl, same⟩ := built
      rw [fault_write_alone rfl]
      constructor
      · rintro ⟨text, -⟩
        exact ⟨text, fun target' other => Command.noConfusion other⟩
      · rintro ⟨text, -⟩
        exact ⟨text, same ▸ text⟩
  | _ => exact built.elim

/-! ## The sources -/

section

variable {w : World} {folder p q : Path} {paths sources : List Path}

/-- What a path of a request stands for: it is text, there is something at it, and it is followed to
the end where that is possible. -/
structure Resolves (w : World) (folder p q : Path) : Prop where
  text : p.IsText
  present : w.present (folder.join p) = true
  path : (w.resolve? (folder.join p)).getD (folder.join p) = q

theorem resolveSource_eq_ok : resolveSource w folder p = .ok q ↔ Resolves w folder p q := by
  have text : p.toString?.isNone = false ↔ p.IsText := by
    rw [← Path.isSome_toString?_iff, ← Option.not_isSome, Bool.not_eq_false']
  rw [resolveSource]
  constructor
  · intro done
    split at done
    · cases done
    · next whole =>
      dsimp only at done
      split at done
      · next there => exact ⟨text.1 (Bool.eq_false_iff.2 whole), there, Except.ok.inj done⟩
      · cases done
  · intro resolves
    rw [text.2 resolves.text, if_neg Bool.false_ne_true]
    dsimp only
    rw [if_pos resolves.present, resolves.path]

/-- Steps that all succeed have one result for each. -/
theorem Outcome.mapM_eq_ok {ε α β : Type} {f : α → Except ε β} {as : List α} {bs : List β} :
    as.mapM f = .ok bs ↔ List.Forall₂ (fun a b => f a = .ok b) as bs := by
  induction as generalizing bs with
  | nil =>
      rw [List.mapM_nil, List.forall₂_nil_left_iff]
      constructor
      · intro done
        cases done
        rfl
      · rintro rfl
        rfl
  | cons a as ih =>
      rw [List.mapM_cons, List.forall₂_cons_left_iff]
      simp only [← ih]
      cases f a with
      | error failure =>
          constructor
          · intro done
            cases done
          · rintro ⟨b, bs', first, -⟩
            cases first
      | ok b =>
          cases as.mapM f with
          | error failure =>
              constructor
              · intro done
                cases done
              · rintro ⟨b, bs', -, others, -⟩
                cases others
          | ok bs' =>
              constructor
              · intro done
                cases done
                exact ⟨b, bs', rfl, rfl, rfl⟩
              · rintro ⟨b, bs', first, others, rfl⟩
                cases first
                cases others
                rfl

/-- Sources are what all paths stand for, each path once. -/
theorem resolveSources_eq_ok : resolveSources w folder paths = .ok sources ↔
    paths ≠ [] ∧ ∃ all, List.Forall₂ (Resolves w folder) paths all ∧ all.eraseDupsBy Path.same = sources := by
  have each : ∀ {all}, paths.mapM (resolveSource w folder) = .ok all ↔
      List.Forall₂ (Resolves w folder) paths all := by
    intro all
    rw [Outcome.mapM_eq_ok]
    simp only [resolveSource_eq_ok]
  rw [resolveSources]
  cases paths with
  | nil =>
      constructor
      · intro done
        cases done
      · rintro ⟨some_path, -⟩
        exact absurd rfl some_path
  | cons p rest =>
      simp only [← each, ← dropRepeats_nil]
      cases (p :: rest).mapM (resolveSource w folder) with
      | error failure =>
          constructor
          · intro done
            cases done
          · rintro ⟨-, all, resolved, -⟩
            cases resolved
      | ok all =>
          constructor
          · intro done
            cases done
            exact ⟨List.cons_ne_nil _ _, all, rfl, rfl⟩
          · rintro ⟨-, all', resolved, rfl⟩
            cases resolved
            rfl

theorem exists_of_resolves {all : List Path} (resolved : List.Forall₂ (Resolves w folder) paths all)
    (member : q ∈ all) : ∃ p ∈ paths, Resolves w folder p q := by
  obtain ⟨i, here, rfl⟩ := List.getElem_of_mem member
  have there : i < paths.length := resolved.length_eq ▸ here
  exact ⟨_, List.getElem_mem there, resolved.get there here⟩

theorem Resolves.isAbsolute (resolves : Resolves w folder p q) (absolute : folder.isAbsolute = true) :
    q.isAbsolute = true := by
  rw [← resolves.path]
  cases resolved : w.resolve? (folder.join p) with
  | none => exact Path.isAbsolute_join absolute p
  | some q' =>
      obtain ⟨loc, e, -, rfl, -⟩ := World.exists_of_resolve? resolved
      rfl

theorem Resolves.present_path (resolves : Resolves w folder p q) (absolute : folder.isAbsolute = true)
    (links : w.disk.LinksTo fun n => 0 ∉ n) : w.present q = true := by
  rw [← resolves.path]
  cases resolved : w.resolve? (folder.join p) with
  | none => exact resolves.present
  | some q' => exact World.present_of_resolve? links (Path.isAbsolute_join absolute p) resolved

theorem Resolves.isText (resolves : Resolves w folder p q) (absolute : folder.isAbsolute = true)
    (text : folder.IsText) (links : w.disk.LinksTo fun n => (Path.mk n).IsText) : q.IsText := by
  have joined := Path.isText_join text resolves.text
  rw [← resolves.path]
  cases resolved : w.resolve? (folder.join p) with
  | none => exact joined
  | some q' => exact World.isText_of_resolve? links (Path.isAbsolute_join absolute p) joined resolved

end

/-- Two files and two links. One link leads to a file, and the other leads nowhere. -/
def linkedFolder : World :=
  ((World.sample [("a", "first"), ("b", "second")]).withLink "soft" "b").withLink "gone" "none"

/-- A name that is not text. -/
def strayName : Name :=
  [0x62, 0x61, 0xFF]

/-- A file with that name, and a link to it whose own name is text. -/
def strayFile : World :=
  let (disk, _) := (World.sample []).disk.addFile default sampleFolder strayName
  { World.sample [] with disk := disk.put (sampleFolder ++ [Text.bytesOf "l"]) (.link ⟨strayName⟩) }

/-- A folder with that name, in which there is a file. -/
def strayFolder : World :=
  let folder := sampleFolder ++ [strayName]
  let disk := (World.sample []).disk.put folder (.folder (Disk.freshStats Disk.folderMode default))
  { World.sample [] with disk := (disk.addFile default folder (Text.bytesOf "a")).1 }

/-- The rename can be carried out, but not be logged. -/
def runsUnlogged (w : World) (source target : Path) : Bool :=
  ((World.renameFile source target).run.run w).1.toOption.isSome &&
    (UndoLog.write [{ kind := .rename, commands := [.rename source target] }]).fault.isSome

end Renumber
