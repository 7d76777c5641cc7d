import Renumber.Proofs.Run.Courses

/-!
# The accounts of runs

A run counts every command once: it ran, it failed and was given up, or its turn never
came. The account may go on over several runs, and it stays in balance whatever the
commands do, however the policy answers and wherever a run is cut short.
-/

namespace Renumber

variable {σ ω : Type}

/-! ## Reports in balance -/

namespace Report

/-- Every command is counted once, and there is a reason for those never tried. -/
structure Balanced (r : Report) : Prop where
  total : r.total = r.executed + r.failed.length + r.skipped
  reason : 0 < r.skipped → r.aborted = true ∨ r.cancelled = true

theorem Balanced.empty : Balanced {} :=
  ⟨rfl, fun some_skipped => absurd some_skipped (Nat.lt_irrefl 0)⟩

variable {r : Report}

theorem Balanced.executed_le (balanced : r.Balanced) : r.executed ≤ r.total := by
  rw [balanced.total, Nat.add_assoc]
  exact Nat.le_add_right ..

/-- What did not run failed or was skipped. -/
theorem Balanced.incomplete (balanced : r.Balanced) : r.incomplete = r.failed.length + r.skipped := by
  rw [Report.incomplete, balanced.total, Nat.add_assoc, Nat.add_sub_cancel_left]

theorem Balanced.isComplete_iff (balanced : r.Balanced) :
    r.isComplete = true ↔ r.failed.length + r.skipped = 0 := by
  rw [isComplete, beq_iff_eq, balanced.total]
  omega

end Report

namespace Run

/-! ## The account of one run -/

/-- How a command that failed is reported. -/
def failedItem (inverse : Bool) (c : Command) (failure : Failure) : FailedItem :=
  ⟨(directed inverse c).description, failure.detailed⟩

/-- What a run adds to a report, and how it parts its commands, by their courses. -/
structure Account (m : Machine ω) (inverse : Bool) (cs : List Command)
    (courses : List (List (Command × ω))) (before : Report) (parts : Parts) (after : Report) :
    Prop where
  /-- Every command has its course. -/
  length : courses.length = cs.length
  attempts : ∀ t ∈ cs.zip courses, ∀ attempt ∈ t.2, attempt.1 = directed inverse t.1
  /-- A command is done when its last attempt succeeds. -/
  sifted : parts = .sift (courses.map m.succeeds) cs
  total : after.total = before.total
  executed : after.executed = before.executed + parts.done.length
  failed : after.failed = before.failed ++
    (cs.zip courses).filterMap fun t => (m.failure? t.2).map (failedItem inverse t.1)
  left : after.failed.length + after.skipped =
    before.failed.length + before.skipped + parts.left.length
  /-- The skipped commands are the last ones, and were not attempted. -/
  skipped : ∃ tried n, courses = tried ++ List.replicate n [] ∧ (∀ course ∈ tried, course ≠ []) ∧
    after.skipped = before.skipped + n
  reason : before.skipped < after.skipped → after.aborted = true ∨ after.cancelled = true
  aborted : before.aborted = true → after.aborted = true
  cancelled : before.cancelled = true → after.cancelled = true

namespace Account

variable {m : Machine ω} {inverse : Bool} {c : Command} {cs : List Command}
  {course : List (Command × ω)} {courses : List (List (Command × ω))} {before after : Report}
  {parts : Parts}

theorem nil (report : Report) : Account m inverse [] [] report {} report where
  length := rfl
  attempts := List.forall_mem_nil _
  sifted := rfl
  total := rfl
  executed := rfl
  failed := (List.append_nil _).symm
  left := rfl
  skipped := ⟨[], 0, rfl, List.forall_mem_nil _, rfl⟩
  reason more := absurd more (Nat.lt_irrefl _)
  aborted := id
  cancelled := id

/-- Commands whose turn never comes. -/
theorem skip {aborted cancelled : Bool} (reason : aborted = true ∨ cancelled = true)
    (still_aborted : before.aborted = true → aborted = true)
    (still_cancelled : before.cancelled = true → cancelled = true) :
    Account m inverse cs (List.replicate cs.length []) before ⟨[], cs⟩
      { before with skipped := before.skipped + cs.length, aborted, cancelled } where
  length := List.length_replicate
  attempts := by
    intro t member attempt in_course
    rw [List.eq_of_mem_replicate (List.of_mem_zip member).2] at in_course
    cases in_course
  sifted := by
    rw [List.map_replicate]
    exact (Parts.sift_none cs).symm
  total := rfl
  executed := rfl
  failed := by
    rw [List.filterMap_eq_nil_iff.2, List.append_nil]
    intro t member
    rw [List.eq_of_mem_replicate (List.of_mem_zip member).2]
    rfl
  left := (Nat.add_assoc ..).symm
  skipped := ⟨[], cs.length, rfl, List.forall_mem_nil _, rfl⟩
  reason _ := reason
  aborted := still_aborted
  cancelled := still_cancelled

/-- Before the other commands comes one that runs. -/
theorem ran (own : ∀ attempt ∈ course, attempt.1 = directed inverse c)
    (result : m.result? course = some (.ok ()))
    (rest : Account m inverse cs courses { before with executed := before.executed + 1 } parts after) :
    Account m inverse (c :: cs) (course :: courses) before { parts with done := c :: parts.done }
      after where
  length := congrArg (· + 1) rest.length
  attempts := List.forall_mem_cons.2 ⟨own, rest.attempts⟩
  sifted := by
    have succeeds : m.succeeds course = true := by
      rw [Machine.succeeds, result]
      rfl
    rw [List.map_cons, succeeds, rest.sifted]
    rfl
  total := rest.total
  executed := by
    have executed : after.executed = before.executed + 1 + parts.done.length := rest.executed
    rw [executed, List.length_cons]
    omega
  failed := by
    have failure : m.failure? course = none := by
      rw [Machine.failure?, result]
    rw [rest.failed, List.zip_cons_cons, List.filterMap_cons, failure]
    rfl
  left := rest.left
  skipped := by
    obtain ⟨tried, n, all, some_attempt, more⟩ := rest.skipped
    refine ⟨course :: tried, n, congrArg _ all, List.forall_mem_cons.2 ⟨?_, some_attempt⟩, more⟩
    rintro rfl
    cases result
  reason := rest.reason
  aborted := rest.aborted
  cancelled := rest.cancelled

/-- Before the other commands comes one that is given up. -/
theorem gave_up {failure : Failure} (own : ∀ attempt ∈ course, attempt.1 = directed inverse c)
    (result : m.result? course = some (.error failure))
    (rest : Account m inverse cs courses
      { before with failed := before.failed ++ [failedItem inverse c failure] } parts after) :
    Account m inverse (c :: cs) (course :: courses) before { parts with left := c :: parts.left }
      after where
  length := congrArg (· + 1) rest.length
  attempts := List.forall_mem_cons.2 ⟨own, rest.attempts⟩
  sifted := by
    have fails : m.succeeds course = false := by
      rw [Machine.succeeds, result]
      rfl
    rw [List.map_cons, fails, rest.sifted]
    rfl
  total := rest.total
  executed := rest.executed
  failed := by
    have failure : m.failure? course = some failure := by
      rw [Machine.failure?, result]
    rw [rest.failed, List.zip_cons_cons, List.filterMap_cons, failure]
    exact List.append_assoc ..
  left := by
    have left : after.failed.length + after.skipped =
        (before.failed ++ [_]).length + before.skipped + parts.left.length := rest.left
    rw [left, List.length_append, List.length_singleton, List.length_cons]
    omega
  skipped := by
    obtain ⟨tried, n, all, some_attempt, more⟩ := rest.skipped
    refine ⟨course :: tried, n, congrArg _ all, List.forall_mem_cons.2 ⟨?_, some_attempt⟩, more⟩
    rintro rfl
    cases result
  reason := rest.reason
  aborted := rest.aborted
  cancelled := rest.cancelled

theorem splits (account : Account m inverse cs courses before parts after) : parts.Splits cs := by
  rw [account.sifted]
  exact Parts.splits_sift (by rw [List.length_map, account.length])

/-- The report stays in balance when the commands are added to its total. -/
theorem balanced
    (account : Account m inverse cs courses { before with total := before.total + cs.length } parts after)
    (balanced : before.Balanced) : after.Balanced where
  total := by
    have total : after.total = before.total + cs.length := account.total
    have executed : after.executed = before.executed + parts.done.length := account.executed
    have left : after.failed.length + after.skipped =
        before.failed.length + before.skipped + parts.left.length := account.left
    rw [total, balanced.total, ← account.splits.length]
    omega
  reason some_skipped := by
    by_cases more : before.skipped < after.skipped
    · exact account.reason more
    · obtain ⟨tried, n, -, -, skipped⟩ := account.skipped
      have skipped_before : 0 < before.skipped := by
        dsimp only at skipped
        omega
      exact (balanced.reason skipped_before).imp account.aborted account.cancelled

end Account

/-- A run keeps its account by the courses of its commands. -/
theorem steps_account (m : Machine ω) (p : Policy σ ω) (inverse : Bool) (cs : List Command)
    (r : State σ ω) :
    Account m inverse cs (courses m p inverse cs r.answers r.place) r.report
      (steps m p inverse cs r).1 (steps m p inverse cs r).2.report := by
  induction cs generalizing r with
  | nil => exact .nil r.report
  | cons c rest ih =>
      rw [courses, steps]
      obtain ⟨_ | _, w⟩ := m.stopped r.place
      · have account := fun report s w' => ih ⟨s, w', report⟩
        have own : ∀ t ∈ triesOf m p (directed inverse c) r.answers w, t.1 = directed inverse c :=
          fun t => command_of_mem_triesOf m p
        have result := result?_triesOf m p (directed inverse c) r.answers w
        rw [directed] at own result ⊢
        simp only
        generalize attempt m p (if inverse then c.inverse else c) r.answers w = out at result
        obtain ⟨_ | ⟨_ | _, failure⟩, s, w'⟩ := out
        · exact .ran own result (account _ s w')
        · exact .gave_up own result (account _ s w')
        · exact .gave_up own result (.skip (.inl rfl) (fun _ => rfl) id)
      · have all : 1 + rest.length = (c :: rest).length := Nat.add_comm ..
        simp only [all]
        exact .skip (.inr rfl) id fun _ => rfl

/-! ## Several runs on one account -/

/-- One of several runs on the same account. -/
structure Job (ω : Type) where
  inverse : Bool := false
  commands : List Command
  /-- What happens to the place before the run. -/
  meanwhile : ω → ω := id

/-- The next run. -/
def Job.run (job : Job ω) (m : Machine ω) (p : Policy σ ω) (r : State σ ω) : Parts × State σ ω :=
  Run.commands m p job.inverse job.commands { r with place := job.meanwhile r.place }

/-- What becomes of the commands of the next run. -/
def Job.courses (job : Job ω) (m : Machine ω) (p : Policy σ ω) (r : State σ ω) :
    List (List (Command × ω)) :=
  Run.courses m p job.inverse job.commands r.answers (job.meanwhile r.place)

/-- Runs one after the other, with the parts of each. -/
def inTurn (m : Machine ω) (p : Policy σ ω) : List (Job ω) → State σ ω → List Parts × State σ ω
  | [], r => ([], r)
  | job :: rest, r =>
    let (parts, r) := job.run m p r
    let (others, r) := inTurn m p rest r
    (parts :: others, r)

variable (m : Machine ω) (p : Policy σ ω)

theorem Job.account (job : Job ω) (r : State σ ω) :
    Account m job.inverse job.commands (job.courses m p r)
      { r.report with total := r.report.total + job.commands.length }
      (job.run m p r).1 (job.run m p r).2.report :=
  steps_account m p job.inverse job.commands ⟨r.answers, job.meanwhile r.place,
    { r.report with total := r.report.total + job.commands.length }⟩

/-- Any number of runs keep a report in balance, and add to what failed or was skipped what
they leave. -/
theorem inTurn_balanced (jobs : List (Job ω)) {r : State σ ω} (balanced : r.report.Balanced) :
    (inTurn m p jobs r).2.report.Balanced ∧
      (inTurn m p jobs r).2.report.failed.length + (inTurn m p jobs r).2.report.skipped =
        r.report.failed.length + r.report.skipped +
          ((inTurn m p jobs r).1.flatMap Parts.left).length := by
  induction jobs generalizing r with
  | nil => exact ⟨balanced, rfl⟩
  | cons job rest ih =>
      have account := job.account m p r
      obtain ⟨later, left⟩ := ih (account.balanced balanced)
      refine ⟨later, left.trans ?_⟩
      rw [account.left, Nat.add_assoc, ← List.length_append]
      rfl

/-- Whatever runs came before on an account that began empty, every command is counted once,
there is a reason for those never tried, no more ran than there were, and all is complete
exactly when no run left any. And the next run parts its commands, keeps their order and
loses none: those are done whose last attempt succeeds, and as many are added to those that
ran; the others failed, each reported with its last failure, or are the last commands, and
were never attempted. Its attempts are what the machine executes, one after the other. -/
theorem inTurn_accounts (jobs : List (Job ω)) (s : σ) (w : ω) (next : Job ω) :
    let (all, r) := inTurn m p jobs ⟨s, w, {}⟩
    let (parts, r') := next.run m p r
    r.report.Balanced ∧ r.report.executed ≤ r.report.total ∧
      r.report.incomplete = r.report.failed.length + r.report.skipped ∧
      (r.report.isComplete = true ↔ ∀ parts ∈ all, parts.left = []) ∧
      parts.Splits next.commands ∧
      Account m next.inverse next.commands (next.courses m p r)
        { r.report with total := r.report.total + next.commands.length } parts r'.report ∧
      (commands m.recording p.recording next.inverse next.commands
        ⟨r.answers, (next.meanwhile r.place, []), r.report⟩).2.place.2 =
          (next.courses m p r).flatten := by
  obtain ⟨balanced, left⟩ := inTurn_balanced m p jobs (r := ⟨s, w, {}⟩) .empty
  have account := next.account m p (inTurn m p jobs ⟨s, w, {}⟩).2
  refine ⟨balanced, balanced.executed_le, balanced.incomplete, ?_, account.splits, account, ?_⟩
  · rw [balanced.isComplete_iff, left]
    simp only [List.length_nil, Nat.zero_add, List.length_eq_zero_iff, List.flatMap_eq_nil_iff]
  · rw [commands, steps_recording]
    rfl

end Run

end Renumber
