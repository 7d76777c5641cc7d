import Renumber.Proofs.History.Layers
import Renumber.Proofs.Session.Wishes

/-!
# What edits come to

An edit is one command in a batch of its own. Either that command runs, and then the batch
is on top of the history and the wishes are those that the command leads to; or nothing
runs, and then the wishes were at most looked at. A command that does not run was cancelled
or is about a source that nobody knows, which only the setting of one destination can be.
-/

namespace Renumber

variable {σ : Type}

/-! ## Runs of one command -/

namespace Run

variable {ω : Type} {m : Machine ω} {p : Policy σ ω} {inverse : Bool} {c : Command} {r : State σ ω}
  {w w' : ω}

/-- A command that succeeds at once is done. -/
theorem commands_of_ok (goes : m.stopped r.place = (false, w))
    (ok : m.execute (directed inverse c) (m.note (directed inverse c).description w) = (.ok (), w')) :
    commands m p inverse [c] r = (⟨[c], []⟩, ⟨r.answers, w',
      { r.report with total := r.report.total + 1, executed := r.report.executed + 1 }⟩) := by
  have ran : attempt m p (directed inverse c) r.answers w = (.ran, r.answers, w') := by
    rw [attempt_eq, ok]
  rw [directed] at ran
  rw [commands, steps, goes]
  simp only [ran]
  rfl

theorem commands_of_stopped (stops : m.stopped r.place = (true, w)) :
    (commands m p inverse [c] r).1 = ⟨[], [c]⟩ ∧ (commands m p inverse [c] r).2.place =
      m.note "Cancelled, discarding remaining commands" w := by
  rw [commands, steps, stops]
  exact ⟨rfl, rfl⟩

/-- The account of a run counts what is done. -/
theorem executed_steps (m : Machine ω) (p : Policy σ ω) (inverse : Bool) (cs : List Command)
    (r : State σ ω) : (steps m p inverse cs r).2.report.executed =
      r.report.executed + (steps m p inverse cs r).1.done.length := by
  induction cs generalizing r with
  | nil => rfl
  | cons c rest ih =>
      rw [steps]
      split
      · rfl
      · dsimp only
        split
        · rw [ih, List.length_cons]
          dsimp only
          omega
        · split
          · rfl
          · exact ih _

theorem executed_commands (m : Machine ω) (p : Policy σ ω) (inverse : Bool) (cs : List Command)
    (r : State σ ω) : (commands m p inverse cs r).2.report.executed =
      r.report.executed + (commands m p inverse cs r).1.done.length :=
  executed_steps ..

end Run

namespace Conduct

variable {command : Command} {r : Run.State σ Workspace} {set : WorkingSet}

/-- An edit that can be made is done, unless the run is cancelled. -/
theorem run_fits (c : Conduct σ) (inverse : Bool) (items : r.place.items = some set)
    (fits : set.wishes.Fits (Run.directed inverse command)) (going : (c.stopped r.place.world).1 = false) :
    ∃ r' set', Run.commands c.machine c.policy.onWorkspace inverse [command] r = (⟨[command], []⟩, r') ∧
      r'.report.executed = r.report.executed + 1 ∧ r'.place.items = some set' ∧
      set'.wishes = set.wishes.amended (Run.directed inverse command) := by
  obtain ⟨answers, ⟨w, _⟩, report⟩ := r
  cases items
  obtain ⟨set', ok, wishes⟩ :=
    fits.execute (c.note (Run.directed inverse command).description (c.stopped w).2)
  have goes : c.machine.stopped ⟨w, some set⟩ = (false, ⟨(c.stopped w).2, some set⟩) :=
    congrArg (·, _) going
  exact ⟨_, set', Run.commands_of_ok goes ok, rfl, rfl, wishes⟩

theorem run_cancelled (c : Conduct σ) (command : Command) (stopped : (c.stopped r.place.world).1 = true) :
    (Run.commands c.machine c.policy.onWorkspace false [command] r).1 = ⟨[], [command]⟩ ∧
      (Run.commands c.machine c.policy.onWorkspace false [command] r).2.place.items = r.place.items := by
  have stops : c.machine.stopped r.place = (true, ⟨(c.stopped r.place.world).2, r.place.items⟩) :=
    congrArg (·, _) stopped
  obtain ⟨parts, place⟩ := Run.commands_of_stopped (p := c.policy.onWorkspace) stops
  refine ⟨parts, ?_⟩
  rw [place]
  rfl

/-- An edit of a destination for an unknown source fails, however often it is tried, and
leaves what is wanted. -/
theorem refines_unknown (c : Conduct σ) (a : Wishes) :
    Run.Refines c.machine c.policy.onWorkspace
      (fun ws (_ : Unit) => ∃ set, ws.items = some set ∧ set.wishes = a) (fun _ _ => none)
      (fun command => ∃ change, command = .edit change ∧ a.paths.find? change.source = none) where
  runs _ _ _ _ _ _ possible := nomatch possible
  note _ _ _ related := related
  stopped _ _ related := related
  decide _ _ _ _ _ related := related
  fails command ws _ name related _ := by
    obtain ⟨change, rfl, unknown⟩ := name
    obtain ⟨w, _⟩ := ws
    obtain ⟨set, same, rfl⟩ := related
    cases same
    have nobody : set.renameItems.findItem? change.source = none := Option.map_eq_none_iff.1 unknown
    have failed := Command.run_applyPaths_some [change] w set
    rw [Command.unknownSource?, List.find?_cons, nobody] at failed
    exact ⟨_, _, failed, set.withRename, rfl, rfl⟩

theorem run_unknown (c : Conduct σ) {change : Change Path} (items : r.place.items = some set)
    (unknown : set.renameItems.find? change.source = none) :
    (Run.commands c.machine c.policy.onWorkspace false [.edit change] r).1.done = [] ∧
      ∃ set', (Run.commands c.machine c.policy.onWorkspace false [.edit change] r).2.place.items =
        some set' ∧ set'.wishes = set.wishes := by
  have named : ∀ command ∈ [Command.edit change], ∃ change',
      Run.directed false command = .edit change' ∧ set.wishes.paths.find? change'.source = none :=
    List.forall_mem_singleton.2 ⟨change, rfl, unknown⟩
  obtain ⟨⟨⟩, done, related⟩ := (refines_unknown c set.wishes).steps false
    (r := { r with report := { r.report with total := r.report.total + 1 } }) (a := ()) named
    ⟨set, items, rfl⟩
  refine ⟨?_, related⟩
  rw [Run.commands]
  cases parts : (Run.steps c.machine c.policy.onWorkspace false [.edit change]
    { r with report := { r.report with total := r.report.total + 1 } }).1.done with
  | nil => rfl
  | cons first rest =>
      rw [parts] at done
      cases done

end Conduct

namespace History

variable {ω : Type} {m : Machine ω} {p : Policy σ ω} {r r' : Run.State σ ω} {b : Batch}
  {command : Command}

/-- The history with a new batch on top. -/
def pushed (h : History) (b : Batch) : History :=
  prune { h with done := b :: h.done, undone := [] }

theorem part?_whole (commands : b.commands = [command]) : b.part? [command] = some b := by
  rw [← commands, Batch.part?_all]
  rw [commands]
  exact List.cons_ne_nil _ _

/-- An edit that is done is on top of the history. -/
theorem execute_of_done (h : History) (commands : b.commands = [command]) (edit : b.isRecorded = false)
    (done : Run.commands m p false [command] r = (⟨[command], []⟩, r')) :
    h.execute m p b r = (true, h.pushed b, r') := by
  have whole : b.execute m p r = (some b, r') := by
    rw [Batch.execute, commands, done, ← part?_whole commands]
  rw [execute, whole]
  dsimp only
  rw [settle_of_edit edit]
  rfl

/-- An edit that is undone comes on top of the undone ones. -/
theorem undo_of_done {h : History} {rest : List Batch} (done : h.done = b :: rest)
    (commands : b.commands = [command]) (edit : b.isRecorded = false)
    (ran : Run.commands m p true [command] r = (⟨[command], []⟩, r')) :
    h.undo m p r = (some b, ⟨rest, b :: h.undone, h.limit⟩, r') := by
  have whole : b.undo m p r = (⟨some b, none⟩, r') := by
    rw [Batch.undo, commands, List.reverse_singleton, ran, ← part?_whole commands]
    rfl
  rw [undo, done]
  dsimp only
  rw [whole]
  dsimp only
  rw [settle_of_edit edit]
  rfl

/-- An edit that is redone comes on top of the done ones, if there is room for it. -/
theorem redo_of_done {h : History} {rest : List Batch} (undone : h.undone = b :: rest)
    (room : h.done.length < max h.limit 1) (commands : b.commands = [command])
    (edit : b.isRecorded = false)
    (ran : Run.commands m p false [command] r = (⟨[command], []⟩, r')) :
    h.redo m p r = (some b, ⟨b :: h.done, rest, h.limit⟩, r') := by
  have whole : b.redo m p r = (⟨some b, none⟩, r') := by
    rw [Batch.redo, commands, ran, ← part?_whole commands]
    rfl
  have all : (b :: h.done).take (max h.limit 1) = b :: h.done := List.take_of_length_le room
  rw [redo, undone]
  dsimp only
  rw [whole]
  dsimp only
  rw [settle_of_edit edit, prune]
  exact congrArg (fun kept => (some b, (⟨kept, rest, h.limit⟩ : History), r')) all

theorem execute_of_nothing (h : History) (nothing : (Run.commands m p false b.commands r).1.done = []) :
    h.execute m p b r = (false, h, (Run.commands m p false b.commands r).2) := by
  have none : b.execute m p r = (none, (Run.commands m p false b.commands r).2) := by
    rw [Batch.execute]
    dsimp only
    rw [nothing]
    rfl
  rw [execute, none]

end History

namespace Session

variable {s s₁ s' : Sitting σ} {c : Conduct σ} {b : Batch} {command : Command}

/-! ## Outcomes -/

/-- Nothing ran: the history stays as it is, and the wishes were at most looked at. -/
structure Quiet (s s' : Sitting σ) : Prop where
  executed : s'.report.executed = s.report.executed
  history : s'.session.history = s.session.history
  wishes : Wishes.Restores s'.session.items.wishes s.session.items.wishes

/-- A command ran as a batch of its own, and led on from wishes that were at most looked
at before. -/
structure Made (s s' : Sitting σ) : Prop where
  executed : s'.report.executed = s.report.executed + 1
  batch : ∃ b command looked, b.commands = [command] ∧
    s'.session.history = s.session.history.pushed b ∧
    Wishes.Restores looked s.session.items.wishes ∧ looked.Fits command ∧
    b.isRecorded = false ∧ s'.session.items.wishes = looked.amended command

theorem Quiet.refl (s : Sitting σ) : Quiet s s :=
  ⟨rfl, rfl, .refl _⟩

theorem Quiet.trans (first : Quiet s s₁) (second : Quiet s₁ s') : Quiet s s' where
  executed := second.executed.trans first.executed
  history := second.history.trans first.history
  wishes := second.wishes.trans first.wishes

theorem Quiet.made (first : Quiet s s₁) (second : Made s₁ s') : Made s s' where
  executed := second.executed.trans (congrArg (· + 1) first.executed)
  batch := by
    obtain ⟨b, command, looked, commands, history, restores, fits, edit, wishes⟩ := second.batch
    rw [first.history] at history
    exact ⟨b, command, looked, commands, history, restores.trans first.wishes, fits, edit, wishes⟩

theorem Quiet.andThen (first : Quiet s s₁) (second : Quiet s₁ s' ∨ Made s₁ s') :
    Quiet s s' ∨ Made s s' :=
  second.imp first.trans first.made

/-- A batch of which nothing ran leaves everything but the working set. -/
theorem quiet_of_nothing {set : WorkingSet}
    (nothing : (Run.commands c.machine c.policy.onWorkspace false b.commands
      (stateOf s (some s.session.items))).1.done = [])
    (items : (Run.commands c.machine c.policy.onWorkspace false b.commands
      (stateOf s (some s.session.items))).2.place.items = some set)
    (wishes : set.wishes = s.session.items.wishes) : Quiet s (executed c b s) := by
  have same : executed c b s = ended s s.session.history (Run.commands c.machine c.policy.onWorkspace
      false b.commands (stateOf s (some s.session.items))).2 := by
    rw [executed, run_execute]
    dsimp only
    rw [if_pos rfl, History.execute_of_nothing _ nothing]
  rw [same]
  constructor
  · refine (Run.executed_commands ..).trans ?_
    rw [nothing]
    rfl
  · rfl
  · dsimp only [ended, after]
    rw [items, Option.getD_some, wishes]
    exact .refl _

/-- An edit that can be made is made, unless it is cancelled. -/
theorem executed_of_fits (c : Conduct σ) (commands : b.commands = [command])
    (edit : b.isRecorded = false) (fits : s.session.items.wishes.Fits command) :
    Quiet s (executed c b s) ∨ Made s (executed c b s) := by
  cases going : (c.stopped s.world).1 with
  | true =>
      left
      obtain ⟨parts, items⟩ :=
        Conduct.run_cancelled (r := stateOf s (some s.session.items)) c command going
      rw [← commands] at parts items
      exact quiet_of_nothing (congrArg Run.Parts.done parts) items rfl
  | false =>
      right
      obtain ⟨r', set', done, executed_one, items, wishes⟩ :=
        Conduct.run_fits (r := stateOf s (some s.session.items)) c false rfl fits going
      have same : executed c b s = ended s (s.session.history.pushed b) r' := by
        rw [executed, run_execute]
        dsimp only
        rw [if_pos rfl, History.execute_of_done _ commands edit done]
      rw [same]
      refine ⟨executed_one, b, command, s.session.items.wishes, commands, rfl, .refl _, fits, edit, ?_⟩
      dsimp only [ended, after]
      rw [items]
      exact wishes

theorem executed_of_unknown (c : Conduct σ) {change : Change Path} (commands : b.commands = [.edit change])
    (unknown : s.session.items.renameItems.find? change.source = none) :
    Quiet s (executed c b s) := by
  obtain ⟨nothing, set', items, wishes⟩ :=
    Conduct.run_unknown (r := stateOf s (some s.session.items)) c rfl unknown
  rw [← commands] at nothing items
  exact quiet_of_nothing nothing items wishes

/-! ## The edits of a session -/

/-- Reading the file states changes no wish. -/
theorem restores_of_read {set : WorkingSet} {items : TouchItems} {w w' : World}
    (read : set.touchItems.run.run w = (.ok items, w')) :
    Wishes.Restores { set with touch := some items : WorkingSet }.wishes set.wishes := by
  have before : set.wishes.states = set.touch := rfl
  rw [WorkingSet.touchItems] at read
  constructor
  · rfl
  · rfl
  · intro items' built
    rw [before] at built
    rw [built] at read
    cases read
    rfl
  · rintro unread _ ⟨rfl⟩
    rw [before] at unread
    rw [unread] at read
    exact (TouchItems.read_ok read).2

/-- Changes that are taken from the entries of a map, each under the path of its entry, are
about different sources. -/
theorem apart_filterMap {α β : Type} {m : PathMap α} {f : Path × α → Option (Change β)}
    (own : ∀ e ∈ m.entries, ∀ c, f e = some c → c.source = e.1) : Apart (m.entries.filterMap f) := by
  rw [Apart, List.pairwise_filterMap]
  refine List.Pairwise.imp_of_mem ?_ m.sorted
  intro e e' member member' before c made c' made'
  rw [own e member c made, own e' member' c' made']
  exact Path.compare_lt_irrefl before

/-- Changes of destinations fit if they are about different sources and tell what is wanted
for them. -/
theorem fits_redirect {items : RenameItems} {changes : List (Change Path)} {a : Wishes}
    (paths : a.paths = items) (apart : Apart changes) (meets : items.Meets .path changes) :
    a.Fits (.redirect changes) where
  edit := rfl
  paths_apart := apart
  paths := paths ▸ meets
  states_apart := List.Pairwise.nil
  states none := absurd rfl none

/-- The change of one destination, if it is known and differs. -/
def redirection? (items : RenameItems) (e : Path × Path) : Option (Change Path) :=
  (items.find? e.1).bind fun before => if before.same e.2 then none else some ⟨e.1, before, e.2⟩

theorem redirections_eq (items : RenameItems) (pairs : PathPairs) :
    redirections items pairs = pairs.entries.filterMap (redirection? items) := by
  apply List.filterMap_congr
  rintro ⟨source, after⟩ -
  dsimp only [redirection?]
  cases items.find? source <;> rfl

theorem redirection?_eq_some {items : RenameItems} {e : Path × Path} {c : Change Path}
    (made : redirection? items e = some c) : c.source = e.1 ∧ items.find? c.source = some c.before := by
  obtain ⟨before, found, differs⟩ := Option.bind_eq_some_iff.1 made
  split at differs
  · cases differs
  · cases differs
    exact ⟨rfl, found⟩

theorem redirections_fit (items : RenameItems) (pairs : PathPairs) :
    Apart (redirections items pairs) ∧ items.Meets .path (redirections items pairs) := by
  rw [redirections_eq]
  constructor
  · exact apart_filterMap fun e _ c made => (redirection?_eq_some made).1
  · intro c member
    obtain ⟨e, -, made⟩ := List.mem_filterMap.1 member
    exact ⟨c.before, (redirection?_eq_some made).2, rfl⟩

/-- The change of one file state, if it differs. -/
def restatement? (edit : Path → FileState → FileState) (e : Path × TouchItem) :
    Option (Change FileState) :=
  let after := edit e.1 e.2.wanted
  if after.same e.2.wanted then none else some ⟨e.2.former.path, e.2.wanted, after⟩

theorem restatement?_eq_some {edit : Path → FileState → FileState} {e : Path × TouchItem}
    {c : Change FileState} (made : restatement? edit e = some c) :
    c.source = e.2.former.path ∧ e.2.wanted = c.before := by
  rw [restatement?] at made
  split at made
  · cases made
  · cases made
    exact ⟨rfl, rfl⟩

theorem restatements_fit {items : TouchItems} (keyed : items.Keyed)
    (edit : Path → FileState → FileState) :
    Apart (restatements items edit) ∧ items.Meets .state (restatements items edit) := by
  have each : restatements items edit = items.entries.filterMap (restatement? edit) := rfl
  rw [each]
  constructor
  · exact apart_filterMap fun e member c made => (restatement?_eq_some made).1.trans (keyed e member)
  · intro c member
    obtain ⟨e, inside, made⟩ := List.mem_filterMap.1 member
    obtain ⟨source, before⟩ := restatement?_eq_some made
    refine ⟨e.2, PathMap.find?_eq_some.2 ⟨e, inside, ?_, rfl⟩, before⟩
    rw [source, keyed e inside]
    exact Path.same_refl _

theorem pathResets_fit (set : WorkingSet) :
    Apart (pathResets set) ∧ set.renameItems.Meets .path (pathResets set) := by
  rw [pathResets]
  split
  · next rename built =>
    have items : set.renameItems = rename := by
      rw [WorkingSet.renameItems, built]
      rfl
    constructor
    · rw [Apart, List.pairwise_map]
      exact (rename.sorted.filter _).imp Path.compare_lt_irrefl
    · rw [PathMap.Meets, List.forall_mem_map, items]
      intro e member
      have inside := (List.mem_filter.1 member).1
      exact ⟨e.2, PathMap.find?_eq_some.2 ⟨e, inside, Path.same_refl _, rfl⟩, rfl⟩
  · exact ⟨List.Pairwise.nil, List.forall_mem_nil _⟩

theorem stateResets_fit {set : WorkingSet} (keyed : set.Keyed) :
    Apart (stateResets set) ∧ (stateResets set ≠ [] →
      ∃ items : TouchItems, set.touch = some items ∧ items.Meets .state (stateResets set)) := by
  rw [stateResets]
  split
  · next items built =>
    have keyed := keyed items built
    rw [TouchItems.modified, List.filter_map]
    constructor
    · rw [Apart, List.pairwise_map, List.pairwise_map]
      refine List.Pairwise.imp_of_mem ?_ (items.sorted.filter _)
      intro e e' member member' before
      change e.2.former.path.same e'.2.former.path = false
      rw [keyed e (List.mem_filter.1 member).1, keyed e' (List.mem_filter.1 member').1]
      exact Path.compare_lt_irrefl before
    · refine fun _ => ⟨items, built, ?_⟩
      rw [PathMap.Meets, List.forall_mem_map, List.forall_mem_map]
      intro e member
      have inside := (List.mem_filter.1 member).1
      refine ⟨e.2, PathMap.find?_eq_some.2 ⟨e, inside, ?_, rfl⟩, rfl⟩
      rw [keyed e inside]
      exact Path.same_refl _
  · exact ⟨List.Pairwise.nil, fun some_change => absurd rfl some_change⟩

/-- Every edit is made as one command, or nothing runs. -/
theorem Edit.outcome (e : Edit) (c : Conduct σ) (keyed : s.session.items.Keyed) :
    Quiet s (e.run c s) ∨ Made s (e.run c s) := by
  have built : Quiet s (s.withItems s.session.items.withRename) := ⟨rfl, rfl, .refl _⟩
  cases e with
  | generate g =>
      rw [run_generate]
      split
      · exact .inl (.refl s)
      · next numbered _ =>
        dsimp only
        split
        · exact .inl built
        · obtain ⟨apart, meets⟩ := redirections_fit s.session.items.renameItems numbered.pairs
          exact built.andThen (executed_of_fits c rfl rfl (fits_redirect rfl apart meets))
  | setDestination source target =>
      rw [run_setDestination]
      cases found : s.session.items.renameItems.find? source with
      | none => exact .inl (built.trans (executed_of_unknown c rfl found))
      | some before =>
          refine built.andThen (executed_of_fits c rfl rfl ?_)
          have meets : s.session.items.renameItems.Meets .path [⟨source, before, target⟩] :=
            List.forall_mem_singleton.2 ⟨before, found, rfl⟩
          exact ⟨rfl, List.pairwise_singleton _ _, meets, List.Pairwise.nil, fun none => absurd rfl none⟩
  | restate edit =>
      rw [run_restate]
      split
      · exact .inl ⟨rfl, rfl, .refl _⟩
      · next items w read =>
        have looked : Quiet s ({ s with world := w }.withItems
            { s.session.items with touch := some items }) :=
          ⟨rfl, rfl, restores_of_read read⟩
        dsimp only
        split
        · exact .inl looked
        · obtain ⟨apart, meets⟩ := restatements_fit (keyed.touchItems read) edit
          refine looked.andThen (executed_of_fits c rfl rfl ?_)
          exact ⟨rfl, List.Pairwise.nil, List.forall_mem_nil _, apart, fun _ => ⟨items, rfl, meets⟩⟩
  | reset =>
      rw [run_reset]
      dsimp only
      split
      · exact .inl (.refl s)
      · obtain ⟨paths_apart, paths⟩ := pathResets_fit s.session.items
        obtain ⟨states_apart, states⟩ := stateResets_fit keyed
        exact executed_of_fits c rfl rfl ⟨rfl, paths_apart, paths, states_apart, states⟩

end Session

end Renumber
