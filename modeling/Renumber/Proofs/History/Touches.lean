import Renumber.Proofs.History.Steps
import Renumber.Proofs.Run.Tally
import Renumber.Proofs.World.Altered

/-!
# Runs that write file states

What a calm run of such writes comes to is told by the set of files that are not as they were
in a base. A write puts its file into that set or, if the state is the one that shows in the
base, takes it out. So when a batch has written states over those of the base, undoing what ran
of it takes all files out again, in whatever order and however often they were written to. A
path that leads to no file makes its write fail, and shows what it always showed.
-/

namespace Renumber

namespace World

variable {logs touched touched' : Set Nat} {base w w' : World} {state target : FileState}
  {command : Command} {cs : List Command} {id : Nat}

/-- The state is the one that its path shows. -/
def Shows (w : World) (state : FileState) : Prop :=
  ∃ stats, w.disk.readStats w.cwd state.path = .ok stats ∧ state = .ofStats state.path stats

/-- The file that a command is to write a state to. -/
def target? (w : World) : Command → Option Nat
  | .touch _ target => w.disk.dataOf? w.cwd target.path
  | _ => none

/-- The files that are not as they were in a base, after a state was written to one. -/
def touchedBy (base : World) (target : FileState) (id : Nat) (touched : Set Nat) : Set Nat :=
  {other | if other = id then ¬base.Shows target else other ∈ touched}

/-- What writing a state means for the files that are not as they were in a base. -/
def touching (base : World) (touched : Set Nat) : Command → Option (Set Nat)
  | .touch _ target =>
    (base.disk.dataOf? base.cwd target.path).map fun id => base.touchedBy target id touched
  | _ => none

theorem mem_touchedBy_self : id ∈ base.touchedBy target id touched ↔ ¬base.Shows target := by
  rw [touchedBy, Set.mem_ofPred_eq, if_pos rfl]

theorem mem_touchedBy {other : Nat} (different : other ≠ id) :
    other ∈ base.touchedBy target id touched ↔ other ∈ touched := by
  rw [touchedBy, Set.mem_ofPred_eq, if_neg different]

/-! ## One write -/

/-- A state is written to the file that its path leads to. If it is the one that shows in the
base, this file is then as it was. -/
theorem Altered.apply (altered : Altered logs touched base w) (proper : base.disk.Proper)
    (leads : base.disk.dataOf? base.cwd target.path = some id) :
    ∃ w', target.apply.run.run w = (.ok (), w') ∧
      Altered logs (base.touchedBy target id touched) base w' := by
  obtain ⟨w', written, restats⟩ :=
    FileState.run_apply_of_dataOf? ((altered.dataOf? target.path).trans leads)
  refine ⟨w', written, altered.restats restats ?_ ?_⟩
  · exact fun other member different => (mem_touchedBy different).2 member
  · intro a b there changed
    by_cases shows_target : base.Shows target
    · obtain ⟨stats, read, same⟩ := shows_target
      obtain ⟨a', there', read'⟩ := Disk.readStats_of_dataOf? leads
      cases there.symm.trans there'
      cases read.symm.trans read'
      have restored : target.written b.stats = { b.stats with
          mode := a.stats.mode, modified := a.stats.modified, accessed := a.stats.accessed } := by
        rw [same]
        exact FileState.written_ofStats (proper.file id a there) b.stats
      rw [restored]
      exact ⟨changed.content, changed.created, fun _ => rfl, fun _ => rfl, fun _ _ => rfl⟩
    · have member : id ∈ base.touchedBy target id touched := mem_touchedBy_self.2 shows_target
      exact ⟨changed.content, changed.created, fun other => absurd member other,
        fun other => absurd member other, fun other => absurd member other⟩

/-- Where its path leads to no file, a state cannot be written and nothing changes. -/
theorem Altered.apply_of_none (altered : Altered logs touched base w) (proper : base.disk.Proper)
    (leads : base.disk.dataOf? base.cwd target.path = none) :
    ∃ fault w', target.apply.run.run w = (.error fault, w') ∧ Altered logs touched base w' := by
  have folders : ∀ loc stats, w.disk.get? loc = some (.folder stats) → stats.Proper :=
    fun loc stats there => proper.folder loc stats (altered.get? loc ▸ there)
  obtain ⟨fault, w', failed, cwd, get?, file?⟩ :=
    FileState.run_apply_of_none folders ((altered.dataOf? target.path).trans leads)
  exact ⟨fault, w', failed, altered.of_same cwd get? file?⟩

/-! ## Writes in order -/

/-- Only files that were written to become different. -/
theorem of_foldlM_touching (ran : cs.foldlM base.touching touched = some touched') :
    (∀ c ∈ cs, (base.target? c).isSome = true) ∧
      ∀ id ∈ touched', id ∈ touched ∨ ∃ c ∈ cs, base.target? c = some id := by
  induction cs generalizing touched with
  | nil =>
      cases ran
      exact ⟨List.forall_mem_nil _, fun id member => .inl member⟩
  | cons c rest ih =>
      rw [List.foldlM_cons] at ran
      obtain ⟨between, first, later⟩ := Option.bind_eq_some_iff.1 ran
      obtain ⟨known, others⟩ := ih later
      cases c with
      | touch former target =>
          obtain ⟨id, leads, rfl⟩ := Option.map_eq_some_iff.1 first
          refine ⟨List.forall_mem_cons.2 ⟨Option.isSome_of_mem leads, known⟩, fun other member => ?_⟩
          obtain before | ⟨c, among, same⟩ := others other member
          · by_cases same : other = id
            · exact .inr ⟨_, List.mem_cons_self, same ▸ leads⟩
            · exact .inl ((mem_touchedBy same).1 before)
          · exact .inr ⟨c, List.mem_cons_of_mem _ among, same⟩
      | _ => cases first

/-- A command that writes the state that shows in the base. -/
def Restores (base : World) : Command → Prop
  | .touch _ target => base.Shows target
  | _ => False

/-- Files to which their states are written back are as they were. -/
theorem foldlM_touching_back
    (back : ∀ c ∈ cs, base.Restores c ∧ (base.target? c).isSome = true) (touched : Set Nat) :
    ∃ touched', cs.foldlM base.touching touched = some touched' ∧
      ∀ id ∈ touched', id ∈ touched ∧ ∀ c ∈ cs, base.target? c ≠ some id := by
  induction cs generalizing touched with
  | nil => exact ⟨touched, rfl, fun id member => ⟨member, List.forall_mem_nil _⟩⟩
  | cons c rest ih =>
      obtain ⟨⟨restores, known⟩, later⟩ := List.forall_mem_cons.1 back
      cases c with
      | touch former target =>
          obtain ⟨id, leads⟩ := Option.isSome_iff_exists.1 known
          have first : base.touching touched (.touch former target) =
              some (base.touchedBy target id touched) := by
            have leads : base.disk.dataOf? base.cwd target.path = some id := leads
            rw [touching, leads, Option.map_some]
          obtain ⟨touched', ran, apart⟩ := ih later (base.touchedBy target id touched)
          refine ⟨touched', ?_, fun other member => ?_⟩
          · rw [List.foldlM_cons, first]
            exact ran
          · obtain ⟨before, others⟩ := apart other member
            have different : other ≠ id := by
              rintro rfl
              exact mem_touchedBy_self.1 before restores
            refine ⟨(mem_touchedBy different).1 before, List.forall_mem_cons.2 ⟨?_, others⟩⟩
            rw [leads]
            exact fun same => different (Option.some.inj same).symm
      | _ => exact restores.elim

end World

/-! ## Runs -/

/-- The command writes a state. -/
def Command.IsTouch : Command → Prop
  | touch _ _ => True
  | _ => False

theorem Command.run_touch (former target : FileState) (ws : Workspace) :
    (Command.touch former target).execute.run.run ws =
      match target.apply.run.run ws.world with
      | (.ok _, world) => (.ok (), { ws with world })
      | (.error fault, world) => (.error (.touchFailed target.path fault), { ws with world }) :=
  Workspace.run_onWorld_adapt (.touchFailed target.path) target.apply ws

variable {σ : Type} {c : Conduct σ} {logs : Set Nat} {base : World}
  {b ran : Batch} {r : Run.State σ Workspace} {touched : Set Nat}

/-- A calm run of writes does to the files what the writes mean. -/
theorem Conduct.Calm.refines_touch (calm : c.Calm logs) (proper : base.disk.Proper) :
    Run.Refines c.machine c.policy.onWorkspace
      (fun ws touched => World.Altered logs touched base ws.world) base.touching
      Command.IsTouch where
  runs command ws touched touched' name altered possible := by
    cases command with
    | touch former target =>
        obtain ⟨id, leads, rfl⟩ := Option.map_eq_some_iff.1 possible
        obtain ⟨w', done, altered'⟩ := altered.apply proper leads
        refine ⟨{ ws with world := w' }, ?_, altered'⟩
        exact (Command.run_touch former target ws).trans (by rw [done])
    | _ => exact name.elim
  fails command ws touched name altered impossible := by
    cases command with
    | touch former target =>
        have leads := Option.map_eq_none_iff.1 impossible
        obtain ⟨fault, w', failed, altered'⟩ := altered.apply_of_none proper leads
        refine ⟨.touchFailed target.path fault, { ws with world := w' }, ?_, altered'⟩
        exact (Command.run_touch former target ws).trans (by rw [failed])
    | _ => exact name.elim
  note message ws touched altered := by
    change World.Altered logs touched base (c.note message ws.world)
    rw [Conduct.note]
    split
    · next log same => exact altered.note (calm.log log same) message
    · exact altered
  stopped ws touched altered :=
    altered.of_disk_eq (c.stopped_disk ws.world).1 (c.stopped_disk ws.world).2
  decide command failure s ws touched altered :=
    altered.of_disk_eq (calm.disk command failure s ws.world) (calm.cwd command failure s ws.world)

/-- Every try of a run is at one of its commands, and finds an abstract state. -/
theorem Run.Refines.tries {ω α : Type} {m : Machine ω} {p : Policy σ ω} {relation : ω → α → Prop}
    {meaning : α → Command → Option α} {named own : Command → Prop}
    (refines : Run.Refines m p relation meaning named) {inverse : Bool} {cs : List Command} {s : σ}
    {w : ω} {a : α} (of_own : ∀ c, own c → named c) (names : ∀ c ∈ cs, own (Run.directed inverse c))
    (related : relation w a) :
    ∀ t ∈ Run.tries m p inverse cs s w, own t.1 ∧ ∃ a, relation t.2 a := by
  have execute : ∀ c {w}, own c → (∃ a, relation w a) → ∃ a, relation (m.execute c w).2 a := by
    rintro c w name ⟨a, related⟩
    cases possible : meaning a c with
    | some a' =>
        obtain ⟨w', ran, related'⟩ := refines.runs c w a a' (of_own c name) related possible
        rw [ran]
        exact ⟨a', related'⟩
    | none =>
        obtain ⟨failure, w', failed, related'⟩ :=
          refines.fails c w a (of_own c name) related possible
        rw [failed]
        exact ⟨a, related'⟩
  apply Run.forall_tries execute
  · exact fun text w ⟨a, related⟩ => ⟨a, refines.note text w a related⟩
  · exact fun ⟨a, related⟩ => ⟨a, refines.stopped _ a related⟩
  · exact fun c failure s w ⟨a, related⟩ => ⟨a, refines.decide c failure s w a related⟩
  · exact names
  · exact ⟨a, related⟩

/-- A write that fails is one whose path leads to no file. -/
theorem World.Altered.leads_of_fails {ws : Workspace} {command : Command} {failure : Failure}
    (altered : World.Altered logs touched base ws.world) (proper : base.disk.Proper)
    (name : command.IsTouch) (fails : (command.execute.run.run ws).1 = .error failure) :
    base.target? command = none := by
  cases command with
  | touch former target =>
      rw [World.target?]
      cases leads : base.disk.dataOf? base.cwd target.path with
      | none => rfl
      | some id =>
          obtain ⟨w', done, -⟩ := altered.apply proper leads
          rw [Command.run_touch, done] at fails
          cases fails
  | _ => exact name.elim

/-! ## Batches -/

/-- The command writes a state to a file of which the state was known. -/
def Command.TouchesFrom (base : World) : Command → Prop
  | touch former target => base.Shows former ∧ target.path = former.path
  | _ => False

theorem Command.TouchesFrom.isTouch {command : Command} (touches : command.TouchesFrom base) :
    command.IsTouch := by
  cases command with
  | touch => trivial
  | _ => exact touches.elim

/-- The inverse writes the known state back to the same file. -/
theorem Command.TouchesFrom.inverse {command : Command} (touches : command.TouchesFrom base) :
    command.inverse.IsTouch ∧ base.Restores command.inverse ∧
      base.target? command.inverse = base.target? command := by
  cases command with
  | touch former target =>
      refine ⟨trivial, touches.1, ?_⟩
      rw [Command.inverse, World.target?, World.target?, touches.2]
  | _ => exact touches.elim

/-- A batch of writes all of which ran. Files that are not as they were in a base are among
those that it wrote to. -/
structure Batch.Wrote (base : World) (touched : Set Nat) (ran : Batch) : Prop where
  some_command : ran.commands ≠ []
  touches : ∀ command ∈ ran.commands,
    command.TouchesFrom base ∧ (base.target? command).isSome = true
  files : ∀ id ∈ touched, ∃ command ∈ ran.commands, base.target? command = some id

/-- What runs of a batch of writes has written what is different afterwards. -/
theorem Batch.execute_touches (calm : c.Calm logs) (proper : r.place.world.disk.Proper)
    (touches : ∀ command ∈ b.commands, command.TouchesFrom r.place.world)
    (executed : (b.execute c.machine c.policy.onWorkspace r).1 = some ran) :
    ∃ touched, ran.Wrote r.place.world touched ∧ World.Altered logs touched r.place.world
      (b.execute c.machine c.policy.onWorkspace r).2.place.world := by
  let start : Run.State σ Workspace :=
    { r with report := { r.report with total := r.report.total + b.commands.length } }
  have names : ∀ command ∈ b.commands, (Run.directed false command).IsTouch :=
    fun command member => (touches command member).isTouch
  obtain ⟨touched, done, altered⟩ :=
    (calm.refines_touch proper).steps false (r := start) (a := ∅) names (.refl _)
  have part := Batch.execute_part b c.machine c.policy.onWorkspace r executed
  have commands : ran.commands =
      (Run.steps c.machine c.policy.onWorkspace false b.commands start).1.done := by
    have executed : b.part? (Run.steps c.machine c.policy.onWorkspace false b.commands start).1.done =
        some ran := executed
    rw [Batch.part?] at executed
    split at executed
    · cases executed
    · cases executed
      rfl
  rw [← commands] at done
  have forward : ran.commands.map (Run.directed false) = ran.commands := List.map_id _
  rw [forward] at done
  obtain ⟨known, others⟩ := World.of_foldlM_touching done
  refine ⟨touched, ⟨part.some_command, fun command member => ?_, fun id member => ?_⟩, altered⟩
  · exact ⟨touches command (part.commands.subset member), known command member⟩
  · exact (others id member).resolve_left (Set.notMem_empty id)

theorem Batch.Wrote.inverse (wrote : ran.Wrote base touched) : ∀ command ∈ ran.commands.reverse,
    (Run.directed true command).IsTouch ∧ base.Restores command.inverse ∧
      base.target? command.inverse = base.target? command :=
  fun command member => (wrote.touches command (List.mem_reverse.1 member)).1.inverse

/-- When all states are written back, no file is different any more. -/
theorem Batch.Wrote.back (wrote : ran.Wrote base touched) :
    (ran.commands.reverse.map (Run.directed true)).foldlM base.touching touched = some ∅ := by
  have back : ∀ command ∈ ran.commands.reverse.map (Run.directed true),
      base.Restores command ∧ (base.target? command).isSome = true := by
    rw [List.forall_mem_map]
    intro command member
    obtain ⟨-, restores, same⟩ := wrote.inverse command member
    have known := (wrote.touches command (List.mem_reverse.1 member)).2
    exact ⟨restores, (congrArg Option.isSome same).trans known⟩
  obtain ⟨touched', possible, apart⟩ := World.foldlM_touching_back back touched
  have none_left : touched' = ∅ := by
    apply Set.eq_empty_of_forall_notMem
    intro id member
    obtain ⟨before, unwritten⟩ := apart id member
    obtain ⟨command, among, leads⟩ := wrote.files id before
    have among := List.mem_reverse.2 among
    exact unwritten _ (List.mem_map_of_mem among) ((wrote.inverse command among).2.2.trans leads)
  rw [possible, none_left]

/-- A batch that can be undone is undone as a whole, if that is not cancelled. Nothing of it
fails then. -/
theorem Run.Refines.undo_whole {ω α : Type} {m : Machine ω} {p : Policy σ ω} {relation : ω → α → Prop}
    {meaning : α → Command → Option α} {named : Command → Prop} {r : Run.State σ ω} {a a' : α}
    (refines : Run.Refines m p relation meaning named) (some_command : b.commands ≠ [])
    (names : ∀ command ∈ b.commands.reverse, named (Run.directed true command))
    (related : relation r.place a)
    (possible : (b.commands.reverse.map (Run.directed true)).foldlM meaning a = some a')
    (uncancelled : (b.undo m p r).2.report.cancelled = false) :
    relation (b.undo m p r).2.place a' ∧ (b.undo m p r).1 = ⟨some b, none⟩ ∧
      (b.undo m p r).2.report.failed = r.report.failed := by
  let start : Run.State σ ω :=
    { r with report := { r.report with total := r.report.total + b.commands.reverse.length } }
  have cut := refines.steps_of_possible true (r := start) names related possible
  obtain ⟨reached, done, related'⟩ := refines.steps true (r := start) names related
  have result : b.undo m p r =
      (b.split ⟨(Run.steps m p true b.commands.reverse start).1.done.reverse,
        (Run.steps m p true b.commands.reverse start).1.left.reverse⟩,
        (Run.steps m p true b.commands.reverse start).2) := rfl
  rw [result] at uncancelled ⊢
  generalize Run.steps m p true b.commands.reverse start = out at *
  obtain ⟨⟨undone, left⟩, after⟩ := out
  have nothing_left : left = [] := by
    apply cut.cancelled.resolve_right
    rw [uncancelled]
    exact Bool.false_ne_true
  have all : undone = b.commands.reverse := by
    have parts := cut.split
    rw [nothing_left, List.append_nil] at parts
    exact parts
  subst nothing_left all
  cases possible.symm.trans done
  refine ⟨related', ?_, cut.failed⟩
  rw [List.reverse_reverse, Batch.split, Batch.part?_all some_command]
  rfl

/-- Writing all states back brings all files back, if it is not cancelled. Nothing fails
then, and the whole batch is undone. -/
theorem Batch.Wrote.undo (wrote : ran.Wrote base touched) (calm : c.Calm logs)
    (proper : base.disk.Proper) (altered : World.Altered logs touched base r.place.world)
    (uncancelled : (ran.undo c.machine c.policy.onWorkspace r).2.report.cancelled = false) :
    World.Altered logs ∅ base (ran.undo c.machine c.policy.onWorkspace r).2.place.world ∧
      (ran.undo c.machine c.policy.onWorkspace r).1 = ⟨some ran, none⟩ ∧
      (ran.undo c.machine c.policy.onWorkspace r).2.report.failed = r.report.failed :=
  (calm.refines_touch proper).undo_whole wrote.some_command
    (fun command member => (wrote.inverse command member).1) altered wrote.back uncancelled

end Renumber
