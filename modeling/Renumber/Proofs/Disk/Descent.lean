import Renumber.Proofs.Disk.Place
import Renumber.World.Basic

/-!
# Ways down from the root

Wherever a walk from the root ends, the same location is reached by its names alone, through folders
only. For a walk has been through each of these folders, if not always by their names, and two dots
lead back to one of them. So the path that is made of the names leads there as well, and what is
known of the names in the path and in the links that were followed is known of these names.
-/

namespace Renumber

namespace Disk

variable {d : Disk} {kind : Name → Prop} {follow : Bool} {loc : Location} {segs : List (List UInt8)}
  {e : Entry}

/-- A name that a walk takes a step for, of which something is known. -/
structure IsStep (kind : Name → Prop) (name : Name) : Prop where
  isName : IsName name
  single : Path.slash ∉ name
  short : name.length ≤ maxName
  known : kind name

/-- The root, or a folder below such a folder. -/
inductive Descends (d : Disk) (kind : Name → Prop) : Location → Prop
  | root : Descends d kind []
  | enter {above : Location} {name : Name} {stats : Stats} (before : Descends d kind above)
      (step : IsStep kind name) (there : d.get? (above ++ [name]) = some (.folder stats)) :
      Descends d kind (above ++ [name])

/-- Such a folder, or what stands in one. -/
inductive Stands (d : Disk) (kind : Name → Prop) : Location → Prop
  | folder {loc : Location} (here : d.Descends kind loc) : Stands d kind loc
  | leaf {above : Location} {name : Name} (before : d.Descends kind above) (step : IsStep kind name) :
      Stands d kind (above ++ [name])

/-- Segments that can be walked: none holds a separator, and what is asked for is known of the names. -/
def Walkable (kind : Name → Prop) (segs : List (List UInt8)) : Prop :=
  ∀ s ∈ segs, Path.slash ∉ s ∧ (IsName s → kind s)

/-- The targets of all links can be walked. -/
def LinksTo (d : Disk) (kind : Name → Prop) : Prop :=
  ∀ loc target, d.get? loc = some (.link target) → Walkable kind (Path.segments target.bytes)

theorem walkable_segments {p : Path} (known : ∀ s ∈ Path.segments p.bytes, IsName s → kind s) :
    Walkable kind (Path.segments p.bytes) :=
  fun s member => ⟨Text.not_mem_of_mem_splitOn member, known s member⟩

theorem Descends.dropLast (descends : d.Descends kind loc) : d.Descends kind loc.dropLast := by
  cases descends with
  | root => exact .root
  | enter before step there =>
      rw [List.dropLast_concat]
      exact before

theorem Descends.names (descends : d.Descends kind loc) : ∀ name ∈ loc, IsStep kind name := by
  induction descends with
  | root => exact List.forall_mem_nil _
  | enter before step there ih =>
      exact List.forall_mem_append.2 ⟨ih, List.forall_mem_singleton.2 step⟩

theorem Stands.names (stands : d.Stands kind loc) : ∀ name ∈ loc, IsStep kind name := by
  cases stands with
  | folder here => exact here.names
  | leaf before step => exact List.forall_mem_append.2 ⟨before.names, List.forall_mem_singleton.2 step⟩

/-! ## Down by the names -/

/-- The names lead down to a folder. -/
theorem Descends.leads (descends : d.Descends kind loc) : d.Leads [] loc loc := by
  induction descends with
  | root => exact .nil []
  | enter before step there ih => exact ih.append (.enter step.isName step.short there (.nil _))

/-- The names lead to what stands in a folder, where a link is not followed. -/
theorem Stands.walk (stands : d.Stands kind loc) (there : d.get? loc = some e) :
    d.walkLeg false [] loc = .done (.ok (.taken loc e)) := by
  cases stands with
  | folder here => exact walkLeg_eq_iff.2 ⟨loc, [], loc, (List.append_nil loc).symm, here.leads, .here there⟩
  | @leaf above name before step =>
      cases e with
      | folder stats =>
          have leads := before.leads.append (.enter step.isName step.short there (.nil _))
          exact walkLeg_eq_folder.2 ⟨leads, there⟩
      | file id =>
          exact walkLeg_eq_iff.2 ⟨above, [name], above, rfl, before.leads,
            .file step.isName step.short there⟩
      | link target =>
          exact walkLeg_eq_iff.2 ⟨above, [name], above, rfl, before.leads,
            .link step.isName step.short there rfl⟩

/-! ## Where walks end -/

/-- A leg ends at what stands in such a folder, or nowhere, or at a link from which the walk goes on
in such a folder. -/
def Leg.Descends (d : Disk) (kind : Name → Prop) : Leg → Prop
  | .done (.ok (.taken end_ _)) => d.Stands kind end_
  | .done _ => True
  | .detour next more => d.Descends kind next ∧ Walkable kind more

/-- What is passed on the way is among the folders, and what is left can be walked. -/
theorem Leads.descends {front back : List (List UInt8)} {end_ : Location}
    (leads : d.Leads loc front end_) (descends : d.Descends kind loc)
    (walkable : Walkable kind (front ++ back)) : d.Descends kind end_ ∧ Walkable kind back := by
  induction leads with
  | nil => exact ⟨descends, walkable⟩
  | skip _ _ ih => exact ih descends (List.forall_mem_cons.1 walkable).2
  | up _ ih => exact ih descends.dropLast (List.forall_mem_cons.1 walkable).2
  | enter isName short there _ ih =>
      obtain ⟨⟨single, known⟩, others⟩ := List.forall_mem_cons.1 walkable
      exact ih (descends.enter ⟨isName, single, short, known isName⟩ there) others

theorem walkLeg_descends (links : d.LinksTo kind) (descends : d.Descends kind loc)
    (walkable : Walkable kind segs) {leg : Leg} (goes : d.walkLeg follow loc segs = leg) :
    leg.Descends d kind := by
  obtain ⟨front, back, last, rfl, leads, stops⟩ := walkLeg_eq_iff.1 goes
  obtain ⟨before, left⟩ := leads.descends descends walkable
  cases stops with
  | here _ => exact .folder before
  | file isName short _ =>
      obtain ⟨⟨single, known⟩, -⟩ := List.forall_mem_cons.1 left
      exact .leaf before ⟨isName, single, short, known isName⟩
  | link isName short _ _ =>
      obtain ⟨⟨single, known⟩, -⟩ := List.forall_mem_cons.1 left
      exact .leaf before ⟨isName, single, short, known isName⟩
  | detour _ _ there _ =>
      refine ⟨?_, List.forall_mem_append.2 ⟨links _ _ there, (List.forall_mem_cons.1 left).2⟩⟩
      split
      · exact .root
      · exact before
  | _ => exact trivial

theorem walkFrom_stands (links : d.LinksTo kind) {budget : Nat} (descends : d.Descends kind loc)
    (walkable : Walkable kind segs) {end_ : Location}
    (ends : d.walkFrom follow budget loc segs = .ok (.taken end_ e)) : d.Stands kind end_ := by
  rw [walkFrom_eq_ok] at ends
  induction ends with
  | ends leg => exact walkLeg_descends links descends walkable leg
  | turns leg _ ih =>
      obtain ⟨onward, others⟩ := walkLeg_descends links descends walkable leg
      exact ih onward others

/-- What an absolute path leads to stands in a folder below the root. -/
theorem stands_of_findEntry {cwd : Location} {p : Path} (links : d.LinksTo kind)
    (absolute : p.isAbsolute = true) (known : ∀ s ∈ Path.segments p.bytes, IsName s → kind s)
    (found : d.findEntry cwd follow p = .ok (loc, e)) : d.Stands kind loc := by
  obtain ⟨-, walked⟩ := findEntry_eq_ok.1 found
  rw [startOf, if_pos absolute] at walked
  exact walkFrom_stands links .root (walkable_segments known) walked

end Disk

end Renumber
