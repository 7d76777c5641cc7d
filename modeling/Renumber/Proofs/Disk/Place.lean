import Renumber.Proofs.Disk.Walk

/-!
# The place of a path

Most paths end in a name that stands in a folder. Such a path has a place, the location
of that name, whether or not anything stands there; and what is found at the path is
what stands at its place. Places depend on folders and links only, so they stay where
they are while files come and go.
-/

namespace Renumber.Disk

variable {d d' : Disk} {follow : Bool} {cwd folder : Location} {p q : Path} {name : Name}
  {slashed : Bool}

/-- The location of the name that a path ends in. A path that ends in separators or
dots, or that leads through something else than folders, has none. -/
def place? (d : Disk) (cwd : Location) (p : Path) : Option Location :=
  match d.findLast cwd p with
  | .ok ⟨folder, some name, false⟩ =>
    if name.length ≤ maxName then some (folder ++ [name]) else none
  | _ => none

theorem place?_eq_some {loc : Location} :
    d.place? cwd p = some loc ↔ ∃ folder name, d.findLast cwd p = .ok ⟨folder, some name, false⟩ ∧
      name.length ≤ maxName ∧ loc = folder ++ [name] := by
  rw [place?]
  constructor
  · intro place
    split at place
    · next folder name last =>
      split at place
      · next short =>
        cases place
        exact ⟨folder, name, last, short, rfl⟩
      · cases place
    · cases place
  · rintro ⟨folder, name, last, short, rfl⟩
    simp only [last]
    rw [if_pos short]

/-! ## Segments behind the last name -/

theorem stripEmpty_append_blank {front blank : List (List UInt8)} {s : List UInt8} (counts : s ≠ [])
    (blanks : ∀ s ∈ blank, s = []) : stripEmpty (front ++ s :: blank) = front ++ [s] := by
  change (front ++ s :: blank).rdropWhile List.isEmpty = front ++ [s]
  induction blank using List.reverseRecOn with
  | nil => exact List.rdropWhile_concat_neg _ _ _ (by simp [counts])
  | append_singleton blank b ih =>
      have empty : b = [] := blanks b (by simp)
      rw [← List.cons_append, ← List.append_assoc,
        List.rdropWhile_concat_pos _ _ _ (by simp [empty])]
      exact ih fun s member => blanks s (by simp [member])

/-- Stripping cuts off empty segments only. -/
theorem stripEmpty_spec (segs : List (List UInt8)) :
    ∃ blank, segs = stripEmpty segs ++ blank ∧ (∀ s ∈ blank, s = []) ∧
      ∀ s, (stripEmpty segs).getLast? = some s → s ≠ [] := by
  refine ⟨segs.rtakeWhile List.isEmpty, ?_, ?_, ?_⟩
  · exact List.rdropWhile_append_rtakeWhile.symm
  · intro s member
    exact List.isEmpty_iff.1 (List.mem_rtakeWhile_imp member)
  · intro s last blank
    by_cases left : stripEmpty segs = []
    · simp [left] at last
    · rw [List.getLast?_eq_some_getLast left] at last
      cases last
      exact List.rdropWhile_last_not List.isEmpty segs left (List.isEmpty_iff.2 blank)

/-- A path ends in a name when its walk comes to a folder before that name, and only
empty segments follow. -/
theorem findLast_eq_ok :
    d.findLast cwd p = .ok ⟨folder, some name, slashed⟩ ↔ checkText p = .ok () ∧
      ∃ front blank stats, Path.segments p.bytes = front ++ name :: blank ∧ IsName name ∧
        (∀ s ∈ blank, s = []) ∧ slashed = !blank.isEmpty ∧
        d.walkFrom true maxLegs (startOf cwd p) front = .ok (.taken folder (.folder stats)) := by
  constructor
  · intro last
    rw [findLast] at last
    cases text : checkText p with
    | error fault => rw [text] at last; cases last
    | ok _ =>
        refine ⟨rfl, ?_⟩
        rw [text] at last
        obtain ⟨blank, all, blanks, counts⟩ := stripEmpty_spec (Path.segments p.bytes)
        simp only [Except.bind, bind] at last
        split at last
        · cases last
        · next walked =>
          split at last
          · next stats =>
            simp only [pure, Except.pure, Except.ok.injEq, LastStep.mk.injEq] at last
            obtain ⟨rfl, named, rfl⟩ := last
            rw [Option.filter_eq_some_iff] at named
            obtain ⟨ends, dots⟩ := named
            obtain ⟨front, kept⟩ := List.getLast?_eq_some_iff.1 ends
            rw [kept, List.dropLast_concat] at walked
            rw [kept] at all
            simp only [Bool.and_eq_true, bne_iff_ne, ne_eq] at dots
            refine ⟨front, blank, stats, ?_, ⟨?_, dots.2⟩, blanks, ?_, walked⟩
            · rw [all, List.append_assoc]
              rfl
            · exact Path.isReal_iff.2 ⟨counts name ends, dots.1⟩
            · rw [kept, all]
              cases blank with
              | nil => simp
              | cons => simp
          · cases last
          · cases last
  · rintro ⟨text, front, blank, stats, all, isName, blanks, rfl, walked⟩
    have counts := Path.isReal_iff.1 isName.1
    rw [findLast, text]
    simp only [Except.bind, bind, all, stripEmpty_append_blank counts.1 blanks,
      List.dropLast_concat, walked, List.getLast?_concat]
    have filtered : (some name).filter (fun s => s != [Path.dot] && s != [Path.dot, Path.dot]) =
        some name := by
      rw [Option.filter_eq_some_iff]
      exact ⟨rfl, by simp [counts.2, isName.2]⟩
    rw [filtered]
    cases blank with
    | nil => simp [pure, Except.pure]
    | cons => simp [pure, Except.pure]

/-! ## What is found at a path that ends in a name -/

/-- The last leg of a walk starts in the folder of the last name. -/
theorem find_eq_leg (last : d.findLast cwd p = .ok ⟨folder, some name, slashed⟩) (follow : Bool) :
    ∃ left blank, (∀ s ∈ blank, s = []) ∧ slashed = !blank.isEmpty ∧ IsName name ∧
      d.find cwd follow p = d.walkFrom follow (left + 1) folder (name :: blank) := by
  obtain ⟨text, front, blank, stats, all, isName, blanks, rfl, walked⟩ := findLast_eq_ok.1 last
  obtain ⟨left, same⟩ :=
    walkFrom_append follow (List.cons_ne_nil name blank) walked
  refine ⟨left, blank, blanks, rfl, isName, ?_⟩
  rw [find, text, all]
  exact same

theorem walkLeg_blank {blank : List (List UInt8)} (blanks : ∀ s ∈ blank, s = [])
    (loc : Location) : d.walkLeg follow loc blank = d.walkLeg follow loc [] := by
  have none_counts : blank.filter Path.isReal = [] := by
    rw [List.filter_eq_nil_iff]
    intro s member
    rw [blanks s member]
    decide
  have leads : d.Leads loc blank loc := leads_filter.1 (none_counts ▸ .nil loc)
  rw [← List.append_nil blank]
  exact leads.walkLeg_append follow []

theorem find_long (last : d.findLast cwd p = .ok ⟨folder, some name, slashed⟩)
    (long : maxName < name.length) : d.find cwd follow p = .error .tooLong := by
  obtain ⟨left, blank, -, -, isName, same⟩ := find_eq_leg last follow
  rw [same, walkFrom, (Stops.long isName long).walkLeg_eq]

theorem find_vacant (last : d.findLast cwd p = .ok ⟨folder, some name, slashed⟩)
    (short : name.length ≤ maxName) (there : d.get? (folder ++ [name]) = none) :
    d.find cwd follow p = .ok (.vacant folder name slashed) := by
  obtain ⟨left, blank, blanks, rfl, isName, same⟩ := find_eq_leg last follow
  rw [same, walkFrom, (Stops.vacant isName short there blanks).walkLeg_eq]

theorem find_folder (last : d.findLast cwd p = .ok ⟨folder, some name, slashed⟩)
    (short : name.length ≤ maxName) {stats : Stats}
    (there : d.get? (folder ++ [name]) = some (.folder stats)) :
    d.find cwd follow p = .ok (.taken (folder ++ [name]) (.folder stats)) := by
  obtain ⟨left, blank, blanks, rfl, isName, same⟩ := find_eq_leg last follow
  rw [same, walkFrom, walkLeg_name isName, if_neg (by omega), there]
  simp only [walkLeg_blank blanks, walkLeg_nil, there]

theorem find_file (last : d.findLast cwd p = .ok ⟨folder, some name, slashed⟩)
    (short : name.length ≤ maxName) {id : Nat}
    (there : d.get? (folder ++ [name]) = some (.file id)) :
    d.find cwd follow p = if slashed then .error .notFolder
      else .ok (.taken (folder ++ [name]) (.file id)) := by
  obtain ⟨left, blank, blanks, rfl, isName, same⟩ := find_eq_leg last follow
  rw [same, walkFrom, walkLeg_name isName, if_neg (by omega), there]
  cases blank <;> rfl

theorem find_link (last : d.findLast cwd p = .ok ⟨folder, some name, false⟩)
    (short : name.length ≤ maxName) {target : Path}
    (there : d.get? (folder ++ [name]) = some (.link target)) :
    d.find cwd false p = .ok (.taken (folder ++ [name]) (.link target)) := by
  obtain ⟨left, blank, blanks, slashed, isName, same⟩ := find_eq_leg last false
  rw [same, walkFrom, walkLeg_name isName, if_neg (by omega), there]
  cases blank with
  | nil => rfl
  | cons => cases slashed

/-- At a path that has a place is what stands there. -/
theorem findEntry_of_place {loc : Location} (place : d.place? cwd p = some loc) :
    d.findEntry cwd false p = match d.get? loc with
      | some e => .ok (loc, e)
      | none => .error .missing := by
  obtain ⟨folder, name, last, short, rfl⟩ := place?_eq_some.1 place
  rw [findEntry]
  cases there : d.get? (folder ++ [name]) with
  | none => rw [find_vacant last short there]; rfl
  | some e =>
      cases e with
      | folder stats => rw [find_folder last short there]; rfl
      | file id => rw [find_file last short there]; rfl
      | link target => rw [find_link last short there]; rfl

theorem present_of_place {loc : Location} (place : d.place? cwd p = some loc) :
    d.present cwd p = (d.get? loc).isSome := by
  rw [present, findEntry_of_place place]
  cases d.get? loc <;> rfl

/-- A path with a place that leads to a file, followed or not, leads to the file at its
place. -/
theorem find_of_place_file {loc : Location} {id : Nat} (place : d.place? cwd p = some loc)
    (there : d.get? loc = some (.file id)) :
    d.find cwd follow p = .ok (.taken loc (.file id)) := by
  obtain ⟨folder, name, last, short, rfl⟩ := place?_eq_some.1 place
  rw [find_file last short there]
  rfl

/-- With more bytes behind its name a path ends in a longer name in the same folder. -/
theorem findLast_append {suffix : String}
    (last : d.findLast cwd p = .ok ⟨folder, some name, false⟩)
    (text : checkText (p.append suffix) = .ok ()) (one : Path.slash ∉ Text.bytesOf suffix)
    (long : 2 < (Text.bytesOf suffix).length) :
    d.findLast cwd (p.append suffix) = .ok ⟨folder, some (name ++ Text.bytesOf suffix), false⟩ := by
  obtain ⟨text', front, blank, stats, all, isName, blanks, none_blank, walked⟩ := findLast_eq_ok.1 last
  have no_blank : blank = [] := by simpa using none_blank.symm
  subst no_blank
  have start : startOf cwd (p.append suffix) = startOf cwd p := by
    have some_byte : p.bytes ≠ [] := by
      intro empty
      rw [checkText, Path.isEmpty, empty] at text'
      cases text'
    rw [startOf, startOf, Path.isAbsolute, Path.isAbsolute, Path.append,
      List.head?_append_of_ne_nil _ some_byte]
  refine findLast_eq_ok.2 ⟨text, front, [], stats, Path.segments_append all one, ⟨?_, ?_⟩, by simp,
    rfl, start ▸ walked⟩
  · rw [Path.isReal_iff]
    constructor <;> intro same
    all_goals
      have length := congrArg List.length same
      simp only [List.length_append, List.length_cons, List.length_nil] at length
      omega
  · intro same
    have length := congrArg List.length same
    simp only [List.length_append, List.length_cons, List.length_nil] at length
    omega

/-! ## Places on a disk that keeps the ways -/

theorem findLast_keeps (keeps : d.Keeps d')
    (last : d.findLast cwd p = .ok ⟨folder, some name, slashed⟩) :
    d'.findLast cwd p = .ok ⟨folder, some name, slashed⟩ := by
  obtain ⟨text, front, blank, stats, all, isName, blanks, rfl, walked⟩ := findLast_eq_ok.1 last
  obtain ⟨stats', walked'⟩ := walkFrom_folder_keeps keeps walked
  exact findLast_eq_ok.2 ⟨text, front, blank, stats', all, isName, blanks, rfl, walked'⟩

theorem place?_keeps (keeps : d.Keeps d') {loc : Location} (place : d.place? cwd p = some loc) :
    d'.place? cwd p = some loc := by
  obtain ⟨folder, name, last, short, rfl⟩ := place?_eq_some.1 place
  exact place?_eq_some.2 ⟨folder, name, findLast_keeps keeps last, short, rfl⟩

/-- Places depend on folders and links only. -/
theorem place?_congr (there : d.Keeps d') (back : d'.Keeps d) (cwd : Location) (p : Path) :
    d'.place? cwd p = d.place? cwd p := by
  cases place : d.place? cwd p with
  | some loc => exact place?_keeps there place
  | none =>
      cases place' : d'.place? cwd p with
      | none => rfl
      | some loc =>
          rw [place?_keeps back place'] at place
          cases place

theorem findEntry_eq_ok {loc : Location} {e : Entry} :
    d.findEntry cwd follow p = .ok (loc, e) ↔
      checkText p = .ok () ∧
        d.walkFrom follow maxLegs (startOf cwd p) (Path.segments p.bytes) = .ok (.taken loc e) := by
  rw [findEntry, find]
  cases text : checkText p with
  | error fault => simp [Except.bind, bind]
  | ok _ =>
      simp only [Except.bind, bind]
      cases d.walkFrom follow maxLegs (startOf cwd p) (Path.segments p.bytes) with
      | error fault => simp
      | ok place => cases place <;> simp [pure, Except.pure, throw, throwThe, MonadExceptOf.throw]

theorem findEntry_keeps (keeps : d.Keeps d') {loc : Location} {e e' : Entry}
    (found : d.findEntry cwd follow p = .ok (loc, e)) (there : d'.get? loc = some e')
    (same : e'.shape = e.shape) : d'.findEntry cwd follow p = .ok (loc, e') := by
  obtain ⟨text, walked⟩ := findEntry_eq_ok.1 found
  exact findEntry_eq_ok.2 ⟨text, walkFrom_keeps keeps walked there same⟩

theorem get?_of_findEntry {loc : Location} {e : Entry}
    (found : d.findEntry cwd follow p = .ok (loc, e)) : d.get? loc = some e :=
  walkFrom_taken (findEntry_eq_ok.1 found).2

theorem isFolder_iff :
    d.isFolder cwd p = true ↔ ∃ loc stats, d.findEntry cwd true p = .ok (loc, .folder stats) := by
  rw [isFolder]
  split
  · next loc stats found => simp [found]
  · next other =>
    constructor
    · intro h
      cases h
    · rintro ⟨loc, stats, found⟩
      exact absurd found (other loc stats)

theorem isFolder_keeps (keeps : d.Keeps d') (there : d.isFolder cwd p = true) :
    d'.isFolder cwd p = true := by
  obtain ⟨loc, stats, found⟩ := isFolder_iff.1 there
  obtain ⟨stats', there'⟩ :=
    shape?_eq_folder.1 (keeps.folder _ (shape?_eq_folder.2 ⟨stats, get?_of_findEntry found⟩))
  exact isFolder_iff.2 ⟨loc, stats', findEntry_keeps keeps found there' rfl⟩

theorem reaches_of_isFolder (there : d.isFolder cwd p = true) : d.reaches cwd p = true := by
  obtain ⟨loc, stats, found⟩ := isFolder_iff.1 there
  rw [reaches, found]
  rfl

/-! ## Parents and spellings -/

theorem reals_of_segments {front blank : List (List UInt8)}
    (all : Path.segments p.bytes = front ++ name :: blank) (isName : IsName name)
    (blanks : ∀ s ∈ blank, s = []) : p.reals = front.filter Path.isReal ++ [name] := by
  have none_real : blank.filter Path.isReal = [] := by
    rw [List.filter_eq_nil_iff]
    intro s member
    simp [blanks s member]
  rw [Path.reals, all, List.filter_append, List.filter_cons_of_pos isName.1, none_real]

/-- The parent of a path that ends in a name in a folder is that folder. -/
theorem isFolder_parent (last : d.findLast cwd p = .ok ⟨folder, some name, slashed⟩)
    (parent : p.parent? = some q) : q.isEmpty = true ∨ d.isFolder cwd q = true := by
  obtain ⟨text, front, blank, stats, all, isName, blanks, rfl, walked⟩ := findLast_eq_ok.1 last
  obtain ⟨reals, bytes, empty | absolute⟩ := Path.parent?_spec parent
  · exact .inl empty
  · by_cases empty : q.isEmpty = true
    · exact .inl empty
    · right
      rw [reals_of_segments all isName blanks, List.dropLast_concat] at reals
      have text_parent : checkText q = .ok () := by
        have length := bytes.length_le
        have bytes_of : ∀ b ∈ q.bytes, b ∈ p.bytes := fun b member => bytes.subset member
        rw [checkText] at text ⊢
        split at text
        · cases text
        · next no_zero =>
          split at text
          · cases text
          · split at text
            · cases text
            · next long =>
              rw [if_neg, if_neg empty, if_neg (by omega)]
              simp only [List.contains_iff_mem] at no_zero ⊢
              exact fun zero => no_zero (bytes_of 0 zero)
      refine isFolder_iff.2 ⟨folder, stats, findEntry_eq_ok.2 ⟨text_parent, ?_⟩⟩
      have start : startOf cwd q = startOf cwd p := by rw [startOf, startOf, absolute]
      rw [start]
      exact walkFrom_congr reals.symm walked

/-- Two spellings of one path have one place. -/
theorem place?_same {a b : Location} (place : d.place? cwd p = some a)
    (place' : d.place? cwd q = some b) (same : p.components = q.components) : a = b := by
  obtain ⟨folder, name, last, -, rfl⟩ := place?_eq_some.1 place
  obtain ⟨folder', name', last', -, rfl⟩ := place?_eq_some.1 place'
  obtain ⟨-, front, blank, stats, all, isName, blanks, -, walked⟩ := findLast_eq_ok.1 last
  obtain ⟨-, front', blank', stats', all', isName', blanks', -, walked'⟩ := findLast_eq_ok.1 last'
  obtain ⟨lead, reals⟩ := Path.components_eq_iff.1 same
  rw [reals_of_segments all isName blanks, reals_of_segments all' isName' blanks'] at reals
  obtain ⟨fronts, names⟩ := List.append_inj' reals rfl
  have start : startOf cwd p = startOf cwd q := by
    have := Path.isAbsolute_iff_lead p
    rw [lead, ← Path.isAbsolute_iff_lead q] at this
    rw [startOf, startOf, Bool.eq_iff_iff.2 this]
  rw [start] at walked
  have walked := walkFrom_congr fronts walked
  rw [walked'] at walked
  cases walked
  rw [names]

/-! ## Paths to files -/

/-- A path at which only files come and go: the folder that it names is there, and
nothing but a file is found at it. -/
structure FlatAt (d : Disk) (cwd : Location) (p : Path) : Prop where
  parent : ∀ q, p.parent? = some q → q.isEmpty = true ∨ d.isFolder cwd q = true
  file : ∀ loc e, d.findEntry cwd false p = .ok (loc, e) → ∃ id, e = .file id

/-- The place of a path at which a file stands, or nothing. -/
structure Site (d : Disk) (cwd : Location) (p : Path) (loc : Location) : Prop where
  place : d.place? cwd p = some loc
  leaf : ∀ e, d.get? loc = some e → ∃ id, e = .file id

theorem Site.flatAt {loc : Location} (site : d.Site cwd p loc) : d.FlatAt cwd p where
  parent q parent := by
    obtain ⟨folder, name, last, -, -⟩ := place?_eq_some.1 site.place
    exact isFolder_parent last parent
  file at_loc e found := by
    rw [findEntry_of_place site.place] at found
    split at found
    · next there =>
      cases found
      exact site.leaf _ there
    · cases found

theorem FlatAt.site (flat : d.FlatAt cwd p) {loc : Location}
    (place : d.place? cwd p = some loc) : d.Site cwd p loc where
  place := place
  leaf e there := flat.file loc e (by rw [findEntry_of_place place, there])

theorem Site.get?_eq {loc : Location} (site : d.Site cwd p loc) :
    d.get? loc = (d.fileAt? loc).map .file := by
  cases there : d.get? loc with
  | none => simp [fileAt?, there]
  | some e =>
      obtain ⟨id, rfl⟩ := site.leaf e there
      simp [fileAt?, there]

end Renumber.Disk
