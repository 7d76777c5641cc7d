import Renumber.Proofs.Disk.Way
import Renumber.Proofs.Disk.Within

/-!
# What opening a file brings to light

A file that is made when it is opened may be found by other paths than its own, through links.
Nothing else is found that was not found before. And the path of an opened file ends in a name:
on a tree, dots and separators at its end would lead to a folder.
-/

namespace Renumber.Disk

open Renumber.Time (Instant)

variable {d d' : Disk} {now : Instant} {cwd loc new folder : Location} {p : Path} {name : Name}
  {follow : Bool} {id : Nat}

/-! ## One more file -/

/-- One disk is another with one more file. -/
structure Adds (new : Location) (id : Nat) (d d' : Disk) : Prop where
  file : d'.shape? new = some (.file id)
  others : ∀ loc, loc ≠ new → d'.shape? loc = d.shape? loc

theorem adds_addFile (d : Disk) (now : Instant) (folder : Location) (name : Name) :
    Adds (folder ++ [name]) d.fresh d (d.addFile now folder name).1 where
  file := by rw [shape?_addFile, if_pos rfl]
  others loc apart := by rw [shape?_addFile, if_neg (Ne.symm apart)]

/-- What stands is the file, or stood there before. -/
theorem Adds.entry (adds : Adds new id d d') {e' : Entry} (there : d'.get? loc = some e') :
    e' = .file id ∨ ∃ e, d.get? loc = some e ∧ e.shape = e'.shape := by
  have shape := shape?_eq_some.2 ⟨e', there, rfl⟩
  by_cases at_new : loc = new
  · rw [at_new, adds.file] at shape
    exact .inl (Entry.shape_eq_file.1 (Option.some.inj shape).symm)
  · rw [adds.others loc at_new] at shape
    exact .inr (shape?_eq_some.1 shape)

theorem Adds.leads (adds : Adds new id d d') {segs : List (List UInt8)}
    (leads : d'.Leads loc segs folder) : d.Leads loc segs folder := by
  refine leads.of_folders fun at_ folder => ?_
  by_cases at_new : at_ = new
  · rw [at_new, adds.file] at folder
    cases folder
  · rw [← adds.others at_ at_new, folder]

/-- A leg ends at the file, or at what stood there before. -/
theorem Adds.walkLeg (adds : Adds new id d d') {segs : List (List UInt8)} {end_ : Location}
    {e' : Entry} (ends : d'.walkLeg follow loc segs = .done (.ok (.taken end_ e'))) :
    e' = .file id ∨ ∃ e, d.walkLeg follow loc segs = .done (.ok (.taken end_ e)) := by
  refine (adds.entry (walkLeg_taken ends)).imp_right ?_
  rintro ⟨e, before, shape⟩
  obtain ⟨front, back, last, rfl, leads, stops⟩ := walkLeg_eq_iff.1 ends
  refine ⟨e, walkLeg_eq_iff.2 ⟨front, back, last, rfl, adds.leads leads, ?_⟩⟩
  cases stops with
  | here _ => exact .here before
  | file isName short _ =>
      obtain rfl := Entry.shape_eq_file.1 shape
      exact .file isName short before
  | link isName short _ kept =>
      obtain rfl := Entry.shape_eq_link.1 shape
      exact .link isName short before kept

/-- A leg turns off where it did before. -/
theorem Adds.walkLeg_detour (adds : Adds new id d d') {next : Location}
    {segs more : List (List UInt8)} (turns : d'.walkLeg follow loc segs = .detour next more) :
    d.walkLeg follow loc segs = .detour next more := by
  obtain ⟨front, back, last, rfl, leads, stops⟩ := walkLeg_eq_iff.1 turns
  refine walkLeg_eq_iff.2 ⟨front, back, last, rfl, adds.leads leads, ?_⟩
  cases stops with
  | detour isName short there followed =>
      obtain file | ⟨e, before, shape⟩ := adds.entry there
      · cases file
      · obtain rfl := Entry.shape_eq_link.1 shape
        exact .detour isName short before followed

theorem Adds.walkFrom (adds : Adds new id d d') {budget : Nat} {segs : List (List UInt8)}
    {end_ : Location} {e' : Entry} (ends : d'.walkFrom follow budget loc segs = .ok (.taken end_ e')) :
    e' = .file id ∨ ∃ e, d.walkFrom follow budget loc segs = .ok (.taken end_ e) := by
  simp only [walkFrom_eq_ok] at ends ⊢
  induction ends with
  | ends leg => exact (adds.walkLeg leg).imp_right fun ⟨e, before⟩ => ⟨e, .ends before⟩
  | turns leg _ ih => exact ih.imp_right fun ⟨e, before⟩ => ⟨e, .turns (adds.walkLeg_detour leg) before⟩

/-- What is found now was found before, or is the file. -/
theorem Adds.reaches (adds : Adds new id d d') (found : d'.reaches cwd p = true) :
    d.reaches cwd p = true ∨ d'.fileNumber cwd p = .ok id := by
  rw [Disk.reaches] at found
  cases ends : d'.findEntry cwd true p with
  | error fault =>
      rw [ends] at found
      cases found
  | ok out =>
      obtain ⟨loc, e'⟩ := out
      obtain ⟨text, walked⟩ := findEntry_eq_ok.1 ends
      obtain rfl | ⟨e, before⟩ := adds.walkFrom walked
      · exact .inr (fileNumber_eq_ok.2 ⟨loc, ends⟩)
      · have reached := findEntry_eq_ok.2 ⟨text, before⟩
        left
        rw [Disk.reaches, reached]
        rfl

theorem reaches_of_openFile (opened : d.openFile now cwd p = .ok (d', id)) {q : Path}
    (found : d'.reaches cwd q = true) : d.reaches cwd q = true ∨ d'.fileNumber cwd q = .ok id := by
  obtain ⟨loc, -, rfl⟩ | ⟨folder, name, -, rfl, rfl⟩ := openFile_eq_ok opened
  · exact .inl found
  · exact (adds_addFile d now folder name).reaches found

/-! ## Paths that end in a name -/

/-- The walk ends at a folder, or behind separators. -/
def Place.Folderly : Place → Prop
  | .taken _ (.folder _) => True
  | .vacant _ _ slashed => slashed = true
  | _ => False

/-- Behind a name there are more segments where the last one is no name. -/
theorem exists_behind {s : List UInt8} {front front' rest : List (List UInt8)} (unnamed : ¬IsName s)
    (isName : IsName name) (all : front ++ [s] = front' ++ name :: rest) :
    ∃ rest', rest = rest' ++ [s] := by
  obtain rfl | ⟨rest', last, rfl⟩ := List.eq_nil_or_concat rest
  · obtain ⟨-, rfl⟩ := List.append_singleton_inj.1 all
    exact absurd isName unnamed
  · rw [List.concat_eq_append, ← List.cons_append, ← List.append_assoc] at all
    obtain ⟨-, rfl⟩ := List.append_singleton_inj.1 all
    exact ⟨rest', List.concat_eq_append⟩

/-- Where the last segment is no name, a leg on a tree ends at a folder or behind separators. -/
theorem walkLeg_unnamed (tree : d.IsTree) (here : d.shape? loc = some .folder) {s : List UInt8}
    (unnamed : ¬IsName s) {front : List (List UInt8)} {place : Place}
    (ends : d.walkLeg follow loc (front ++ [s]) = .done (.ok place)) : place.Folderly := by
  obtain ⟨front', back, last, all, leads, stops⟩ := walkLeg_eq_iff.1 ends
  cases stops with
  | here there =>
      obtain ⟨stats, folder⟩ := shape?_eq_folder.1 (leads.folder tree here)
      rw [folder] at there
      cases there
      trivial
  | vacant isName _ _ _ =>
      obtain ⟨rest', rfl⟩ := exists_behind unnamed isName all
      simp [Place.Folderly]
  | file isName _ _ =>
      obtain ⟨rest', none_left⟩ := exists_behind unnamed isName all
      simp at none_left
  | link isName _ _ _ =>
      obtain ⟨rest', none_left⟩ := exists_behind unnamed isName all
      simp at none_left

/-- A detour on a tree starts in a folder and keeps a last segment that is no name. -/
theorem walkLeg_detour_unnamed (tree : d.IsTree) (here : d.shape? loc = some .folder)
    {s : List UInt8} (unnamed : ¬IsName s) {front more : List (List UInt8)} {next : Location}
    (turns : d.walkLeg follow loc (front ++ [s]) = .detour next more) :
    d.shape? next = some .folder ∧ ∃ front', more = front' ++ [s] := by
  obtain ⟨front', back, last, all, leads, stops⟩ := walkLeg_eq_iff.1 turns
  cases stops with
  | @detour name rest target isName _ _ _ =>
      obtain ⟨rest', rfl⟩ := exists_behind unnamed isName all
      refine ⟨?_, Path.segments target.bytes ++ rest', (List.append_assoc ..).symm⟩
      split
      · exact tree.root
      · exact leads.folder tree here

theorem walkFrom_unnamed (tree : d.IsTree) (here : d.shape? loc = some .folder) {s : List UInt8}
    (unnamed : ¬IsName s) {budget : Nat} {front : List (List UInt8)} {place : Place}
    (ends : d.walkFrom follow budget loc (front ++ [s]) = .ok place) : place.Folderly := by
  rw [walkFrom_eq_ok] at ends
  generalize all : front ++ [s] = segs at ends
  induction ends generalizing front with
  | ends leg =>
      subst all
      exact walkLeg_unnamed tree here unnamed leg
  | turns leg _ ih =>
      subst all
      obtain ⟨here', front', rfl⟩ := walkLeg_detour_unnamed tree here unnamed leg
      exact ih here' rfl

/-- The path of a file that could be opened ends in a name. -/
theorem name_of_openFile (tree : d.IsTree) (working : d.shape? cwd = some .folder)
    (opened : d.openFile now cwd p = .ok (d', id)) :
    ∃ front name, Path.segments p.bytes = front ++ [name] ∧ IsName name := by
  obtain none_left | ⟨front, s, all⟩ := List.eq_nil_or_concat (Path.segments p.bytes)
  · exact absurd none_left (Path.segments_ne_nil _)
  rw [List.concat_eq_append] at all
  refine ⟨front, s, all, ?_⟩
  by_contra unnamed
  have here : d.shape? (startOf cwd p) = some .folder := by
    rw [startOf]
    split
    · exact tree.root
    · exact working
  have folderly : ∀ {place : Place}, d.find cwd true p = .ok place → place.Folderly := by
    intro place found
    have walked := (find_eq_ok.1 found).2
    rw [all] at walked
    exact walkFrom_unnamed tree here unnamed walked
  obtain ⟨loc, found, -⟩ | ⟨folder, name, found, -⟩ := openFile_eq_ok opened
  · exact folderly found
  · exact Bool.false_ne_true (folderly found)

end Renumber.Disk
