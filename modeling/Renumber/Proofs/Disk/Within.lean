import Renumber.Proofs.Disk.Plain

/-!
# Disks within disks

One disk is within another when whatever stands on it stands on the other. A path that leads
to an entry of the smaller disk leads to that entry on the larger one, links or not. So files
are still found after others were opened, and were there before another one was removed; and
a path whose last name was removed leads nowhere.
-/

namespace Renumber.Disk

open Renumber.Time (Instant)

variable {d d' : Disk} {now : Instant} {cwd loc folder : Location} {p : Path} {name : Name}
  {follow : Bool} {id : Nat} {stats : Stats}

/-- Whatever stands on one disk stands on the other. -/
def Within (d d' : Disk) : Prop :=
  ∀ loc s, d.shape? loc = some s → d'.shape? loc = some s

theorem Within.trans {a b c : Disk} (first : a.Within b) (second : b.Within c) : a.Within c :=
  fun loc s there => second loc s (first loc s there)

theorem Within.keeps (within : d.Within d') : d.Keeps d' where
  folder loc there := within loc _ there
  link loc _ there := within loc _ there

theorem SameShape.within (same : d.SameShape d') : d.Within d' :=
  fun loc _ there => (same loc).symm.trans there

theorem Widens.within (widens : d.Widens d') : d.Within d' := by
  intro loc s there
  obtain same | ⟨before, -⟩ := widens.shape loc
  · exact same.trans there
  · rw [before] at there
    cases there

theorem Within.shape_eq (within : d.Within d') {e e' : Entry} (there : d.get? loc = some e)
    (there' : d'.get? loc = some e') : e.shape = e'.shape := by
  have kept := within loc _ (shape?_eq_some.2 ⟨e, there, rfl⟩)
  rw [shape?, there'] at kept
  exact (Option.some.inj kept).symm

theorem within_addFile (now : Instant) (free : d.get? (folder ++ [name]) = none) :
    d.Within (d.addFile now folder name).1 := by
  intro loc s there
  rw [shape?_addFile, if_neg]
  · exact there
  · rintro rfl
    rw [shape?_eq_none.2 free] at there
    cases there

theorem within_writeFile (d : Disk) (now : Instant) (id : Nat) (content : List UInt8) :
    d.Within (d.writeFile now id content) := by
  intro loc s there
  rwa [shape?, get?_writeFile]

theorem removed_within (d : Disk) (now : Instant) (folder : Location) (name : Name) :
    ((d.drop (folder ++ [name])).stampFolder now folder).Within d := by
  intro loc s there
  rw [shape?_removed] at there
  split at there
  · cases there
  · exact there

/-! ## What paths lead to -/

/-- A path leads to the same place on a larger disk. -/
theorem Within.findEntry (within : d.Within d') {e : Entry}
    (found : d.findEntry cwd follow p = .ok (loc, e)) :
    ∃ e', d'.findEntry cwd follow p = .ok (loc, e') ∧ e'.shape = e.shape := by
  have there : d.shape? loc = some e.shape := shape?_eq_some.2 ⟨e, get?_of_findEntry found, rfl⟩
  obtain ⟨e', there', same⟩ := shape?_eq_some.1 (within loc _ there)
  exact ⟨e', findEntry_keeps within.keeps found there' same, same⟩

theorem fileNumber_eq_ok :
    d.fileNumber cwd p = .ok id ↔ ∃ loc, d.findEntry cwd true p = .ok (loc, .file id) := by
  rw [fileNumber]
  cases d.findEntry cwd true p with
  | error fault => simp [bind, Except.bind]
  | ok found =>
      obtain ⟨loc, e⟩ := found
      cases e <;>
        simp [bind, Except.bind, pure, Except.pure, throw, throwThe, MonadExceptOf.throw]

theorem Within.fileNumber (within : d.Within d') (leads : d.fileNumber cwd p = .ok id) :
    d'.fileNumber cwd p = .ok id := by
  obtain ⟨loc, found⟩ := fileNumber_eq_ok.1 leads
  obtain ⟨e, found', same⟩ := within.findEntry found
  obtain rfl := Entry.shape_eq_file.1 same
  exact fileNumber_eq_ok.2 ⟨loc, found'⟩

theorem reaches_of_fileNumber (leads : d.fileNumber cwd p = .ok id) : d.reaches cwd p = true := by
  obtain ⟨loc, found⟩ := fileNumber_eq_ok.1 leads
  rw [reaches, found]
  rfl

/-! ## Opening files -/

/-- Where a leg ends in a vacant place, nothing stands, and a file that is put there is found
by it. -/
theorem walkLeg_vacant {slashed : Bool} {segs : List (List UInt8)}
    (ends : d.walkLeg follow loc segs = .done (.ok (.vacant folder name slashed))) :
    d.get? (folder ++ [name]) = none ∧
      (slashed = false → ∀ {d' : Disk}, d.Keeps d' → d'.get? (folder ++ [name]) = some (.file id) →
        d'.walkLeg follow loc segs = .done (.ok (.taken (folder ++ [name]) (.file id)))) := by
  obtain ⟨front, back, last, rfl, leads, stops⟩ := walkLeg_eq_iff.1 ends
  cases stops with
  | @vacant _ blank isName short free _ =>
      refine ⟨free, fun unslashed d' keeps there => ?_⟩
      obtain rfl : blank = [] := by simpa using unslashed
      exact walkLeg_eq_iff.2 ⟨front, [name], folder, rfl, leads.keeps keeps, .file isName short there⟩

theorem walkFrom_vacant (id : Nat) {budget : Nat} {slashed : Bool} {segs : List (List UInt8)}
    (ends : d.walkFrom follow budget loc segs = .ok (.vacant folder name slashed)) :
    d.get? (folder ++ [name]) = none ∧
      (slashed = false → ∀ {d' : Disk}, d.Keeps d' → d'.get? (folder ++ [name]) = some (.file id) →
        d'.walkFrom follow budget loc segs = .ok (.taken (folder ++ [name]) (.file id))) := by
  simp only [walkFrom_eq_ok] at ends ⊢
  induction ends with
  | ends leg =>
      obtain ⟨free, found⟩ := walkLeg_vacant leg
      exact ⟨free, fun unslashed _ keeps there => .ends (found unslashed keeps there)⟩
  | turns leg _ ih =>
      refine ih.imp_right fun found unslashed d' keeps there => ?_
      exact .turns (walkLeg_detour_keeps keeps leg) (found unslashed keeps there)

/-- A file that is opened stands at its path, or is made in the vacant place there. -/
theorem openFile_eq_ok (opened : d.openFile now cwd p = .ok (d', id)) :
    (∃ loc, d.find cwd true p = .ok (.taken loc (.file id)) ∧ d' = d) ∨
      ∃ folder name, d.find cwd true p = .ok (.vacant folder name false) ∧
        d' = (d.addFile now folder name).1 ∧ id = d.fresh := by
  rw [openFile] at opened
  cases found : d.find cwd true p with
  | error fault =>
      rw [found] at opened
      cases opened
  | ok place =>
      rw [found] at opened
      cases place with
      | taken loc e =>
          cases e with
          | file other =>
              simp only [bind, Except.bind] at opened
              split at opened
              · cases opened
              · cases opened
                exact .inl ⟨loc, rfl, rfl⟩
          | folder stats => cases opened
          | link target => cases opened
      | vacant folder name slashed =>
          simp only [bind, Except.bind] at opened
          split at opened
          · cases opened
          · next unslashed =>
            cases opened
            rw [Bool.eq_false_iff.2 unslashed]
            exact .inr ⟨folder, name, rfl, rfl, rfl⟩

theorem find_eq_ok {place : Place} : d.find cwd follow p = .ok place ↔
    checkText p = .ok () ∧ d.walkFrom follow maxLegs (startOf cwd p) (Path.segments p.bytes) = .ok place := by
  rw [find]
  cases checkText p <;> simp [bind, Except.bind]

/-- An opened file is found, what stood before is still there, and no other file changes. -/
theorem openFile_within (opened : d.openFile now cwd p = .ok (d', id)) :
    d.Within d' ∧ d'.fileNumber cwd p = .ok id ∧ ∀ other, other ≠ id → d'.file? other = d.file? other := by
  obtain ⟨loc, found, rfl⟩ | ⟨folder, name, found, rfl, rfl⟩ := openFile_eq_ok opened
  · refine ⟨fun _ _ there => there, fileNumber_eq_ok.2 ⟨loc, ?_⟩, fun _ _ => rfl⟩
    rw [findEntry, found]
    rfl
  · obtain ⟨text, walked⟩ := find_eq_ok.1 found
    obtain ⟨free, reached⟩ := walkFrom_vacant d.fresh walked
    have within := within_addFile now free
    have there : (d.addFile now folder name).1.get? (folder ++ [name]) = some (.file d.fresh) := by
      rw [← shape?_eq_file, shape?_addFile, if_pos rfl]
    have leads := reached rfl within.keeps there
    refine ⟨within, fileNumber_eq_ok.2 ⟨folder ++ [name], findEntry_eq_ok.2 ⟨text, leads⟩⟩, ?_⟩
    intro other apart
    exact (file?_addFile ..).trans (if_neg (Ne.symm apart))

/-! ## Removing files -/

/-- The leg does not go on, and ends at nothing. -/
def Leg.Fails (l : Leg) : Prop :=
  ∃ place, l = .done place ∧ ∀ loc e, place ≠ .ok (.taken loc e)

theorem Leg.Fails.walkFrom_ne {budget : Nat} {segs : List (List UInt8)} {end_ : Location} {e : Entry}
    (fails : (d.walkLeg follow loc segs).Fails) :
    d.walkFrom follow (budget + 1) loc segs ≠ .ok (.taken end_ e) := by
  obtain ⟨place, leg, nothing⟩ := fails
  rw [walkFrom, leg]
  exact nothing _ _

/-- A leg ends at nothing where a name is missing. -/
theorem fails_of_missing (isName : IsName name) (free : d.get? (loc ++ [name]) = none) (follow : Bool)
    (rest : List (List UInt8)) : (d.walkLeg follow loc (name :: rest)).Fails := by
  rw [walkLeg_name isName, free]
  split
  · exact ⟨_, rfl, by simp⟩
  · dsimp only
    split <;> exact ⟨_, rfl, by simp⟩

/-- On a smaller disk segments lead to the same folder or are not passed. -/
theorem Leads.within (within : d'.Within d) (follow : Bool) {xs : List (List UInt8)}
    (leads : d.Leads loc xs folder) (ys : List (List UInt8)) :
    d'.Leads loc xs folder ∨ (d'.walkLeg follow loc (xs ++ ys)).Fails := by
  induction leads with
  | nil loc => exact .inl (.nil loc)
  | skip skipped _ ih =>
      rw [List.cons_append, walkLeg_skip_cons skipped]
      exact ih.imp_left (.skip skipped)
  | up _ ih =>
      rw [List.cons_append, walkLeg_up]
      exact ih.imp_left .up
  | @enter loc folder name rest stats isName short there _ ih =>
      cases there' : d'.get? (loc ++ [name]) with
      | none => exact .inr (fails_of_missing isName there' follow _)
      | some e =>
          obtain ⟨stats', rfl⟩ := Entry.shape_eq_folder.1 (within.shape_eq there' there)
          rw [List.cons_append, walkLeg_name isName, if_neg (Nat.not_lt.2 short), there']
          exact ih.imp_left (.enter isName short there')

/-- On a smaller disk a walk turns off at the same link or ends at nothing. -/
theorem walkLeg_detour_within (within : d'.Within d) (follow : Bool) {next : Location}
    {xs ys more : List (List UInt8)} (behind : ys ≠ [])
    (turns : d.walkLeg true loc xs = .detour next more) :
    d'.walkLeg follow loc (xs ++ ys) = .detour next (more ++ ys) ∨
      (d'.walkLeg follow loc (xs ++ ys)).Fails := by
  obtain ⟨front, back, last, rfl, leads, stops⟩ := walkLeg_eq_iff.1 turns
  cases stops with
  | @detour name rest target isName short there followed =>
      rw [List.append_assoc]
      refine (leads.within within follow (name :: rest ++ ys)).elim (fun leads' => ?_) .inr
      rw [leads'.walkLeg_append]
      cases there' : d'.get? (last ++ [name]) with
      | none => exact .inr (fails_of_missing isName there' follow _)
      | some e =>
          obtain rfl := Entry.shape_eq_link.1 (within.shape_eq there' there)
          have turns' := (Stops.detour isName short there' followed).walkLeg_eq
          exact .inl (walkLeg_detour_append follow behind turns')

theorem walkFrom_within (within : d'.Within d) {budget : Nat} {xs ys : List (List UInt8)}
    (behind : ys ≠ []) {end_ : Location} {e : Entry}
    (by_way : d.walkFrom true budget loc xs = .ok (.taken folder (.folder stats)))
    (ends : d'.walkFrom follow budget loc (xs ++ ys) = .ok (.taken end_ e)) :
    ∃ left, d'.walkFrom follow (left + 1) folder ys = .ok (.taken end_ e) := by
  rw [walkFrom_eq_ok] at by_way
  induction by_way with
  | @ends budget loc xs leg =>
      have leads := (walkLeg_eq_folder.1 leg).1
      have leads' := (leads.within within follow ys).resolve_right fun fails => fails.walkFrom_ne ends
      rw [walkFrom, leads'.walkLeg_append, ← walkFrom] at ends
      exact ⟨budget, ends⟩
  | turns leg _ ih =>
      have turns := (walkLeg_detour_within within follow behind leg).resolve_right
        fun fails => fails.walkFrom_ne ends
      rw [walkFrom, turns] at ends
      exact ih ends

/-- A file or link is removed from the place of its path. -/
theorem removeFile_eq_ok (removed : d.removeFile now cwd p = .ok d') :
    ∃ folder name, d.findLast cwd p = .ok ⟨folder, some name, false⟩ ∧
      d' = (d.drop (folder ++ [name])).stampFolder now folder := by
  rw [removeFile] at removed
  simp only [bind, Except.bind, throw, throwThe, MonadExceptOf.throw, pure, Except.pure] at removed
  split at removed
  · cases removed
  next last found =>
  obtain ⟨folder, name?, slashed⟩ := last
  cases name? with
  | none => cases removed
  | some name =>
      simp only at removed
      split at removed
      · cases removed
      · cases removed
      · split at removed
        · cases removed
        · next unslashed =>
          cases removed
          refine ⟨folder, name, ?_, rfl⟩
          rw [found, Bool.eq_false_iff.2 unslashed]

/-- What was removed is not found, whatever stands else was there before, and no file changes. -/
theorem removeFile_within (removed : d.removeFile now cwd p = .ok d') :
    d'.Within d ∧ d'.reaches cwd p = false ∧ ∀ id, d'.file? id = d.file? id := by
  obtain ⟨folder, name, last, rfl⟩ := removeFile_eq_ok removed
  obtain ⟨text, front, blank, stats, all, isName, blanks, unslashed, walked⟩ :=
    findLast_eq_ok.1 last
  have within := removed_within d now folder name
  have gone : ((d.drop (folder ++ [name])).stampFolder now folder).get? (folder ++ [name]) = none := by
    rw [← shape?_eq_none, shape?_removed, if_pos rfl]
  refine ⟨within, ?_, fun id => by simp⟩
  rw [reaches]
  cases found : ((d.drop (folder ++ [name])).stampFolder now folder).findEntry cwd true p with
  | error fault => rfl
  | ok end_ =>
      obtain ⟨loc, e⟩ := end_
      have ends := (findEntry_eq_ok.1 found).2
      rw [all] at ends
      obtain ⟨left, ends⟩ := walkFrom_within within (List.cons_ne_nil name blank) walked ends
      exact absurd ends (fails_of_missing isName gone true blank).walkFrom_ne

end Renumber.Disk
