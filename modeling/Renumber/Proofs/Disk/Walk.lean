import Renumber.Proofs.Disk.Shape
import Renumber.Proofs.Path.Segments

/-!
# Walks

A leg of a walk passes through folders until it ends or comes to a link, and a walk is leg after
leg. Where a leg passes is a matter of the folders alone. So a walk that ends at a folder ends there
on every disk that keeps the folders and links, it is not changed by segments that do not count, and
whatever is walked behind it starts from that folder.
-/

namespace Renumber.Disk

variable {d d' : Disk} {follow : Bool} {loc folder next end_ : Location} {stats : Stats} {budget : Nat}
  {segs front xs ys more : List (List UInt8)} {e e' : Entry} {place : Place} {leg : Leg}

/-! ## One segment -/

theorem walkLeg_nil (d : Disk) (follow : Bool) (loc : Location) :
    d.walkLeg follow loc [] = match d.get? loc with
      | some e => .done (.ok (.taken loc e))
      | none => .done (.error .missing) := rfl

theorem walkLeg_skip_cons {s : List UInt8} (skipped : Path.isReal s = false) (loc : Location)
    (rest : List (List UInt8)) : d.walkLeg follow loc (s :: rest) = d.walkLeg follow loc rest := by
  have dots : s = [] ∨ s = [Path.dot] := by
    by_contra none_of
    rw [not_or] at none_of
    rw [Path.isReal_iff.2 none_of] at skipped
    cases skipped
  rw [walkLeg, if_pos dots]

theorem walkLeg_up (d : Disk) (follow : Bool) (loc : Location) (rest : List (List UInt8)) :
    d.walkLeg follow loc ([Path.dot, Path.dot] :: rest) = d.walkLeg follow loc.dropLast rest := by
  rw [walkLeg, if_neg (by decide), if_pos rfl]

/-- A segment that is a name. -/
def IsName (s : List UInt8) : Prop :=
  Path.isReal s = true ∧ s ≠ [Path.dot, Path.dot]

theorem walkLeg_name {s : List UInt8} (name : IsName s) (loc : Location)
    (rest : List (List UInt8)) :
    d.walkLeg follow loc (s :: rest) =
      if s.length > maxName then .done (.error .tooLong)
      else match d.get? (loc ++ [s]) with
        | none =>
          if rest.all List.isEmpty then .done (.ok (.vacant loc s (!rest.isEmpty)))
          else .done (.error .missing)
        | some (.folder _) => d.walkLeg follow (loc ++ [s]) rest
        | some (.file id) =>
          if rest.isEmpty then .done (.ok (.taken (loc ++ [s]) (.file id)))
          else .done (.error .notFolder)
        | some (.link target) =>
          if rest.isEmpty && !follow then .done (.ok (.taken (loc ++ [s]) (.link target)))
          else .detour (if target.isAbsolute then [] else loc)
            (Path.segments target.bytes ++ rest) := by
  have real := Path.isReal_iff.1 name.1
  have step := walkLeg.eq_2 d follow loc s rest
  rw [if_neg (not_or.2 real), if_neg name.2] at step
  exact step

/-- Every segment is skipped, leads up, or is a name. -/
theorem segment_cases (s : List UInt8) :
    Path.isReal s = false ∨ s = [Path.dot, Path.dot] ∨ IsName s := by
  cases real : Path.isReal s with
  | false => exact .inl rfl
  | true =>
      by_cases up : s = [Path.dot, Path.dot]
      · exact .inr (.inl up)
      · exact .inr (.inr ⟨real, up⟩)

theorem all_isEmpty {blank : List (List UInt8)} :
    blank.all List.isEmpty = true ↔ ∀ s ∈ blank, s = [] := by
  simp only [List.all_eq_true, List.isEmpty_iff]

/-! ## Legs -/

/-- The segments lead from one location to another, by folders only. -/
inductive Leads (d : Disk) : Location → List (List UInt8) → Location → Prop
  | nil (loc : Location) : Leads d loc [] loc
  | skip {loc end_ : Location} {s : List UInt8} {rest : List (List UInt8)}
      (skipped : Path.isReal s = false) (leads : Leads d loc rest end_) : Leads d loc (s :: rest) end_
  | up {loc end_ : Location} {rest : List (List UInt8)} (leads : Leads d loc.dropLast rest end_) :
      Leads d loc ([Path.dot, Path.dot] :: rest) end_
  | enter {loc end_ : Location} {name : Name} {rest : List (List UInt8)} {stats : Stats}
      (isName : IsName name) (short : name.length ≤ maxName)
      (there : d.get? (loc ++ [name]) = some (.folder stats)) (leads : Leads d (loc ++ [name]) rest end_) :
      Leads d loc (name :: rest) end_

/-- What becomes of a leg that passes no more folders. -/
inductive Stops (d : Disk) (follow : Bool) (loc : Location) : List (List UInt8) → Leg → Prop
  | here {e : Entry} (there : d.get? loc = some e) : Stops d follow loc [] (.done (.ok (.taken loc e)))
  | nowhere (free : d.get? loc = none) : Stops d follow loc [] (.done (.error .missing))
  | long {name : Name} {rest : List (List UInt8)} (isName : IsName name)
      (long : name.length > maxName) : Stops d follow loc (name :: rest) (.done (.error .tooLong))
  | vacant {name : Name} {blank : List (List UInt8)} (isName : IsName name)
      (short : name.length ≤ maxName) (free : d.get? (loc ++ [name]) = none)
      (blanks : ∀ s ∈ blank, s = []) :
      Stops d follow loc (name :: blank) (.done (.ok (.vacant loc name (!blank.isEmpty))))
  | missing {name : Name} {rest : List (List UInt8)} (isName : IsName name)
      (short : name.length ≤ maxName) (free : d.get? (loc ++ [name]) = none)
      (counts : ¬∀ s ∈ rest, s = []) : Stops d follow loc (name :: rest) (.done (.error .missing))
  | file {name : Name} {id : Nat} (isName : IsName name) (short : name.length ≤ maxName)
      (there : d.get? (loc ++ [name]) = some (.file id)) :
      Stops d follow loc [name] (.done (.ok (.taken (loc ++ [name]) (.file id))))
  | behindFile {name : Name} {rest : List (List UInt8)} {id : Nat} (isName : IsName name)
      (short : name.length ≤ maxName) (there : d.get? (loc ++ [name]) = some (.file id))
      (more : rest ≠ []) : Stops d follow loc (name :: rest) (.done (.error .notFolder))
  | link {name : Name} {target : Path} (isName : IsName name) (short : name.length ≤ maxName)
      (there : d.get? (loc ++ [name]) = some (.link target)) (kept : follow = false) :
      Stops d follow loc [name] (.done (.ok (.taken (loc ++ [name]) (.link target))))
  | detour {name : Name} {rest : List (List UInt8)} {target : Path} (isName : IsName name)
      (short : name.length ≤ maxName) (there : d.get? (loc ++ [name]) = some (.link target))
      (followed : rest ≠ [] ∨ follow = true) :
      Stops d follow loc (name :: rest)
        (.detour (if target.isAbsolute then [] else loc) (Path.segments target.bytes ++ rest))

theorem Leads.walkLeg_append (leads : d.Leads loc front end_) (follow : Bool)
    (back : List (List UInt8)) : d.walkLeg follow loc (front ++ back) = d.walkLeg follow end_ back := by
  induction leads with
  | nil => rfl
  | skip skipped _ ih =>
      rw [List.cons_append, walkLeg_skip_cons skipped]
      exact ih
  | up _ ih =>
      rw [List.cons_append, walkLeg_up]
      exact ih
  | enter isName short there _ ih =>
      rw [List.cons_append, walkLeg_name isName, if_neg (Nat.not_lt.2 short), there]
      exact ih

theorem Stops.walkLeg_eq (stops : d.Stops follow loc segs leg) : d.walkLeg follow loc segs = leg := by
  cases stops with
  | here there => rw [walkLeg_nil, there]
  | nowhere free => rw [walkLeg_nil, free]
  | long isName long => rw [walkLeg_name isName, if_pos long]
  | vacant isName short free blanks =>
      rw [walkLeg_name isName, if_neg (Nat.not_lt.2 short), free]
      exact if_pos (all_isEmpty.2 blanks)
  | missing isName short free counts =>
      rw [walkLeg_name isName, if_neg (Nat.not_lt.2 short), free]
      exact if_neg (counts ∘ all_isEmpty.1)
  | file isName short there => rw [walkLeg_name isName, if_neg (Nat.not_lt.2 short), there]; rfl
  | behindFile isName short there more =>
      rw [walkLeg_name isName, if_neg (Nat.not_lt.2 short), there]
      exact if_neg (more ∘ List.isEmpty_iff.1)
  | link isName short there kept =>
      rw [walkLeg_name isName, if_neg (Nat.not_lt.2 short), there, kept]
      rfl
  | detour isName short there followed =>
      rw [walkLeg_name isName, if_neg (Nat.not_lt.2 short), there]
      refine if_neg ?_
      simpa [or_iff_not_imp_left] using followed

/-- A leg passes through folders, and then it stops. -/
theorem exists_stops (d : Disk) (follow : Bool) (loc : Location) (segs : List (List UInt8)) :
    ∃ front back end_, segs = front ++ back ∧ d.Leads loc front end_ ∧
      d.Stops follow end_ back (d.walkLeg follow loc segs) := by
  have at_once : ∀ {loc segs leg}, d.Stops follow loc segs leg → ∃ front back end_,
      segs = front ++ back ∧ d.Leads loc front end_ ∧
        d.Stops follow end_ back (d.walkLeg follow loc segs) :=
    fun stops => ⟨[], _, _, rfl, .nil _, stops.walkLeg_eq ▸ stops⟩
  induction segs generalizing loc with
  | nil =>
      cases there : d.get? loc with
      | none => exact at_once (.nowhere there)
      | some e => exact at_once (.here there)
  | cons s rest ih =>
      obtain skipped | rfl | isName := segment_cases s
      · obtain ⟨front, back, end_, all, leads, stops⟩ := ih loc
        rw [walkLeg_skip_cons skipped]
        exact ⟨s :: front, back, end_, congrArg _ all, .skip skipped leads, stops⟩
      · obtain ⟨front, back, end_, all, leads, stops⟩ := ih loc.dropLast
        rw [walkLeg_up]
        exact ⟨_ :: front, back, end_, congrArg _ all, .up leads, stops⟩
      · by_cases long : s.length > maxName
        · exact at_once (.long isName long)
        have short := Nat.not_lt.1 long
        cases there : d.get? (loc ++ [s]) with
        | none =>
            by_cases blanks : ∀ s ∈ rest, s = []
            · exact at_once (.vacant isName short there blanks)
            · exact at_once (.missing isName short there blanks)
        | some e =>
            cases e with
            | folder stats =>
                obtain ⟨front, back, end_, all, leads, stops⟩ := ih (loc ++ [s])
                rw [walkLeg_name isName, if_neg long, there]
                exact ⟨s :: front, back, end_, congrArg _ all, .enter isName short there leads, stops⟩
            | file id =>
                obtain rfl | more := eq_or_ne rest []
                · exact at_once (.file isName short there)
                · exact at_once (.behindFile isName short there more)
            | link target =>
                obtain rfl | more := eq_or_ne rest []
                · cases follow with
                  | false => exact at_once (.link isName short there rfl)
                  | true => exact at_once (.detour isName short there (.inr rfl))
                · exact at_once (.detour isName short there (.inl more))

theorem walkLeg_eq_iff : d.walkLeg follow loc segs = leg ↔ ∃ front back end_, segs = front ++ back ∧
    d.Leads loc front end_ ∧ d.Stops follow end_ back leg := by
  constructor
  · rintro rfl
    exact exists_stops d follow loc segs
  · rintro ⟨front, back, end_, rfl, leads, stops⟩
    rw [leads.walkLeg_append, stops.walkLeg_eq]

/-- A leg that ends at a folder has passed there. -/
theorem walkLeg_eq_folder : d.walkLeg follow loc segs = .done (.ok (.taken folder (.folder stats))) ↔
    d.Leads loc segs folder ∧ d.get? folder = some (.folder stats) := by
  rw [walkLeg_eq_iff]
  constructor
  · rintro ⟨front, back, end_, rfl, leads, stops⟩
    cases stops with
    | here there => exact ⟨(List.append_nil front).symm ▸ leads, there⟩
  · rintro ⟨leads, there⟩
    exact ⟨segs, [], folder, (List.append_nil segs).symm, leads, .here there⟩

/-- What a walk says is at its end is there. -/
theorem walkLeg_taken (ends : d.walkLeg follow loc segs = .done (.ok (.taken end_ e))) :
    d.get? end_ = some e := by
  obtain ⟨front, back, last, -, -, stops⟩ := walkLeg_eq_iff.1 ends
  cases stops with
  | here there => exact there
  | file _ _ there => exact there
  | link _ _ there _ => exact there

/-! ## Leg after leg -/

/-- A walk comes to a place, with so many legs allowed. -/
inductive Walks (d : Disk) (follow : Bool) (place : Place) :
    Nat → Location → List (List UInt8) → Prop
  | ends {budget : Nat} {loc : Location} {segs : List (List UInt8)}
      (leg : d.walkLeg follow loc segs = .done (.ok place)) : Walks d follow place (budget + 1) loc segs
  | turns {budget : Nat} {loc next : Location} {segs more : List (List UInt8)}
      (leg : d.walkLeg follow loc segs = .detour next more)
      (walks : Walks d follow place budget next more) : Walks d follow place (budget + 1) loc segs

theorem walkFrom_eq_ok :
    d.walkFrom follow budget loc segs = .ok place ↔ d.Walks follow place budget loc segs := by
  constructor
  · intro walked
    induction budget generalizing loc segs with
    | zero => cases walked
    | succ budget ih =>
        rw [walkFrom] at walked
        split at walked
        · next outcome leg =>
          subst walked
          exact .ends leg
        · next leg => exact .turns leg (ih walked)
  · intro walks
    induction walks with
    | ends leg => rw [walkFrom, leg]
    | turns leg _ ih => rw [walkFrom, leg, ← ih]

theorem walkFrom_taken (ends : d.walkFrom follow budget loc segs = .ok (.taken end_ e)) :
    d.get? end_ = some e := by
  rw [walkFrom_eq_ok] at ends
  induction ends with
  | ends leg => exact walkLeg_taken leg
  | turns _ _ ih => exact ih

/-! ## Walks on a disk that keeps the ways -/

/-- A way stays while the folders on it do. -/
theorem Leads.of_folders
    (folders : ∀ at_, d.shape? at_ = some .folder → d'.shape? at_ = some .folder)
    (leads : d.Leads loc segs end_) : d'.Leads loc segs end_ := by
  induction leads with
  | nil loc => exact .nil loc
  | skip skipped _ ih => exact .skip skipped ih
  | up _ ih => exact .up ih
  | enter isName short there _ ih =>
      obtain ⟨stats', there'⟩ := shape?_eq_folder.1 (folders _ (shape?_eq_folder.2 ⟨_, there⟩))
      exact .enter isName short there' ih

theorem Leads.keeps (keeps : d.Keeps d') (leads : d.Leads loc segs end_) :
    d'.Leads loc segs end_ :=
  leads.of_folders keeps.folder

/-- A leg that ends at an entry still ends there while the entry has its shape. -/
theorem walkLeg_keeps (keeps : d.Keeps d')
    (ends : d.walkLeg follow loc segs = .done (.ok (.taken end_ e)))
    (there : d'.get? end_ = some e') (same : e'.shape = e.shape) :
    d'.walkLeg follow loc segs = .done (.ok (.taken end_ e')) := by
  obtain ⟨front, back, last, rfl, leads, stops⟩ := walkLeg_eq_iff.1 ends
  refine walkLeg_eq_iff.2 ⟨front, back, last, rfl, leads.keeps keeps, ?_⟩
  cases stops with
  | here _ => exact .here there
  | file isName short _ =>
      obtain rfl := Entry.shape_eq_file.1 same
      exact .file isName short there
  | link isName short _ kept =>
      obtain rfl := Entry.shape_eq_link.1 same
      exact .link isName short there kept

theorem walkLeg_detour_keeps (keeps : d.Keeps d')
    (turns : d.walkLeg follow loc segs = .detour next more) :
    d'.walkLeg follow loc segs = .detour next more := by
  obtain ⟨front, back, last, rfl, leads, stops⟩ := walkLeg_eq_iff.1 turns
  refine walkLeg_eq_iff.2 ⟨front, back, last, rfl, leads.keeps keeps, ?_⟩
  cases stops with
  | detour isName short there followed =>
      have there' := shape?_eq_link.1 (keeps.link _ _ (shape?_eq_link.2 there))
      exact .detour isName short there' followed

/-- A walk still ends at an entry that has its shape on a disk that keeps the ways. -/
theorem walkFrom_keeps (keeps : d.Keeps d')
    (ends : d.walkFrom follow budget loc segs = .ok (.taken end_ e))
    (there : d'.get? end_ = some e') (same : e'.shape = e.shape) :
    d'.walkFrom follow budget loc segs = .ok (.taken end_ e') := by
  rw [walkFrom_eq_ok] at ends ⊢
  induction ends with
  | ends leg => exact .ends (walkLeg_keeps keeps leg there same)
  | turns leg _ ih => exact .turns (walkLeg_detour_keeps keeps leg) ih

/-- A walk to a folder ends there on every disk that keeps the ways. -/
theorem walkFrom_folder_keeps (keeps : d.Keeps d')
    (ends : d.walkFrom follow budget loc segs = .ok (.taken folder (.folder stats))) :
    ∃ stats', d'.walkFrom follow budget loc segs = .ok (.taken folder (.folder stats')) := by
  obtain ⟨stats', there⟩ :=
    shape?_eq_folder.1 (keeps.folder _ (shape?_eq_folder.2 ⟨stats, walkFrom_taken ends⟩))
  exact ⟨stats', walkFrom_keeps keeps ends there rfl⟩

/-! ## Spellings of one walk -/

/-- Segments that do not count are no steps. -/
theorem leads_filter : d.Leads loc (segs.filter Path.isReal) end_ ↔ d.Leads loc segs end_ := by
  constructor
  · intro leads
    induction segs generalizing loc with
    | nil => exact leads
    | cons s rest ih =>
        cases real : Path.isReal s with
        | false =>
            rw [List.filter_cons_of_neg (by simp [real])] at leads
            exact .skip real (ih leads)
        | true =>
            rw [List.filter_cons_of_pos real] at leads
            cases leads with
            | skip skipped leads => exact .skip skipped (ih leads)
            | up leads => exact .up (ih leads)
            | enter isName short there leads => exact .enter isName short there (ih leads)
  · intro leads
    induction leads with
    | nil loc => exact .nil loc
    | skip skipped _ ih => rwa [List.filter_cons_of_neg (by simp [skipped])]
    | up _ ih =>
        rw [List.filter_cons_of_pos (by decide)]
        exact .up ih
    | enter isName short there _ ih =>
        rw [List.filter_cons_of_pos isName.1]
        exact .enter isName short there ih

theorem Leads.congr (leads : d.Leads loc xs end_)
    (same : xs.filter Path.isReal = ys.filter Path.isReal) : d.Leads loc ys end_ := by
  rw [← leads_filter, same, leads_filter] at leads
  exact leads

/-- Segments that do not count make no difference to where a leg turns off. -/
theorem walkLeg_detour_congr (same : xs.filter Path.isReal = ys.filter Path.isReal)
    (turns : d.walkLeg follow loc xs = .detour next more) :
    ∃ more', d.walkLeg true loc ys = .detour next more' ∧
      more.filter Path.isReal = more'.filter Path.isReal := by
  obtain ⟨front, back, last, rfl, leads, stops⟩ := walkLeg_eq_iff.1 turns
  cases stops with
  | detour isName short there _ =>
      rw [List.filter_append, List.filter_cons_of_pos isName.1, eq_comm,
        List.filter_eq_append_iff] at same
      obtain ⟨front', back', rfl, fronts, backs⟩ := same
      obtain ⟨skipped, rest', rfl, none_counts, -, rests⟩ := List.filter_eq_cons_iff.1 backs
      have leads' : d.Leads loc (front' ++ skipped) last := by
        refine leads.congr ?_
        rw [List.filter_append, fronts, List.filter_eq_nil_iff.2 none_counts, List.append_nil]
      refine ⟨_, walkLeg_eq_iff.2 ⟨_, _, last, (List.append_assoc ..).symm, leads',
        .detour isName short there (.inr rfl)⟩, ?_⟩
      rw [List.filter_append, List.filter_append, rests]

/-- Segments that do not count make no difference to a walk that ends at a folder. -/
theorem walkFrom_congr (same : xs.filter Path.isReal = ys.filter Path.isReal)
    (ends : d.walkFrom follow budget loc xs = .ok (.taken folder (.folder stats))) :
    d.walkFrom true budget loc ys = .ok (.taken folder (.folder stats)) := by
  rw [walkFrom_eq_ok] at ends ⊢
  induction ends generalizing ys with
  | ends leg =>
      obtain ⟨leads, there⟩ := walkLeg_eq_folder.1 leg
      exact .ends (walkLeg_eq_folder.2 ⟨leads.congr same, there⟩)
  | turns leg _ ih =>
      obtain ⟨more', leg', same'⟩ := walkLeg_detour_congr same leg
      exact .turns leg' (ih same')

/-! ## Walks in two parts -/

theorem Leads.append (first : d.Leads loc xs next) (second : d.Leads next ys end_) :
    d.Leads loc (xs ++ ys) end_ := by
  induction first with
  | nil => exact second
  | skip skipped _ ih => exact .skip skipped (ih second)
  | up _ ih => exact .up (ih second)
  | enter isName short there _ ih => exact .enter isName short there (ih second)

theorem walkLeg_detour_append (follow : Bool) (behind : ys ≠ [])
    (turns : d.walkLeg true loc xs = .detour next more) :
    d.walkLeg follow loc (xs ++ ys) = .detour next (more ++ ys) := by
  obtain ⟨front, back, last, rfl, leads, stops⟩ := walkLeg_eq_iff.1 turns
  cases stops with
  | @detour name rest target isName short there _ =>
      have followed : rest ++ ys ≠ [] := List.append_ne_nil_of_right_ne_nil rest behind
      rw [List.append_assoc, List.append_assoc, leads.walkLeg_append]
      exact (Stops.detour isName short there (.inl followed)).walkLeg_eq

/-- What is walked behind a walk to a folder starts from that folder. -/
theorem walkFrom_append (follow : Bool) (behind : ys ≠ [])
    (ends : d.walkFrom true budget loc xs = .ok (.taken folder (.folder stats))) :
    ∃ left, d.walkFrom follow budget loc (xs ++ ys) = d.walkFrom follow (left + 1) folder ys := by
  rw [walkFrom_eq_ok] at ends
  induction ends with
  | @ends budget loc xs leg =>
      have onward := (walkLeg_eq_folder.1 leg).1.walkLeg_append follow ys
      exact ⟨budget, by rw [walkFrom, walkFrom, onward]⟩
  | turns leg _ ih =>
      obtain ⟨left, onward⟩ := ih
      exact ⟨left, by rw [walkFrom, walkLeg_detour_append follow behind leg]; exact onward⟩

end Renumber.Disk
