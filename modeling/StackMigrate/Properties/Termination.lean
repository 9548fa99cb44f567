import StackMigrate.Graph.Loop
import StackMigrate.Graph.Replay
import Mathlib.Algebra.Order.BigOperators.Group.List

/-!
# The loop comes to an end

Editors and error analysis share one retry counter. A task's credit is the number of
dispatches it can still cause: a dispatch uses up one unit whatever comes of it, and
error analysis, which reopens a task that has succeeded, raises the counter and gives no
credit back.
-/

namespace StackMigrate

/-! ### Credit -/

/-- The dispatches that the task can still cause. -/
def MigrationTask.credit (t : MigrationTask) : ℕ :=
  if t.isOpen then (t.maxRetries + 1 - t.retryCount).toNat
  else if t.status = .succeeded then (t.maxRetries - t.retryCount).toNat
  else 0

/-- An open task may still be tried. -/
def MigrationTask.InCredit (t : MigrationTask) : Prop :=
  t.isOpen = true → t.retryCount ≤ t.maxRetries

theorem credit_of_open {t : MigrationTask} (hopen : t.isOpen = true) :
    t.credit = (t.maxRetries + 1 - t.retryCount).toNat := by
  simp [MigrationTask.credit, hopen]

theorem credit_of_succeeded {t : MigrationTask} (h : t.status = .succeeded) :
    t.credit = (t.maxRetries - t.retryCount).toNat := by
  simp [MigrationTask.credit, MigrationTask.isOpen, h]

theorem credit_of_closed {t : MigrationTask} (h : t.status = .needsHuman ∨ t.status = .skipped) :
    t.credit = 0 ∧ t.InCredit := by
  rcases h with h | h <;>
    simp [MigrationTask.credit, MigrationTask.InCredit, MigrationTask.isOpen, h]

theorem credit_pos {t : MigrationTask} (hcredit : t.InCredit) (hopen : t.isOpen = true) :
    0 < t.credit := by
  have hle := hcredit hopen
  have hcount := credit_of_open hopen
  omega

/-- One attempt at an open task uses up a unit of its credit. -/
theorem credit_after {r : BranchRecord} (hopen : r.task.isOpen = true) (hcredit : r.task.InCredit)
    (hback : ∀ costUsd, r.outcome ≠ .crashed costUsd) :
    r.after.InCredit ∧ r.after.credit + 1 ≤ r.task.credit := by
  have hpos := credit_pos hcredit hopen
  have hle := hcredit hopen
  have hbefore := credit_of_open hopen
  cases houtcome : r.outcome with
  | skipped =>
    have hafter : r.after = { r.task with status := .skipped } := by
      simp [BranchRecord.after, houtcome]
    obtain ⟨hzero, hin⟩ := credit_of_closed (t := r.after) (Or.inr (by rw [hafter]))
    exact ⟨hin, by omega⟩
  | failed =>
    have hafter : r.after = failedTask r.task := by simp [BranchRecord.after, houtcome]
    have hcount : r.after.retryCount = r.task.retryCount + 1 := by rw [hafter]; rfl
    by_cases hcap : r.task.retryCount + 1 > r.task.maxRetries
    · have hstatus : r.after.status = .needsHuman := by simp [hafter, failedTask, hcap]
      obtain ⟨hzero, hin⟩ := credit_of_closed (Or.inl hstatus)
      exact ⟨hin, by omega⟩
    · have hstatus : r.after.status = .retrying := by simp [hafter, failedTask, hcap]
      have hstill := credit_of_open (MigrationTask.isOpen_iff.mpr (Or.inr hstatus))
      rw [r.maxRetries_after] at hstill
      refine ⟨fun _ => ?_, by omega⟩
      rw [r.maxRetries_after]
      omega
  | succeeded result costUsd =>
    have hafter : r.after = { r.task with status := .succeeded } := by
      simp [BranchRecord.after, houtcome]
    have hnow := credit_of_succeeded (t := r.after) (by rw [hafter])
    have hcount : r.after.retryCount = r.task.retryCount := by rw [hafter]
    rw [r.maxRetries_after] at hnow
    exact ⟨by simp [hafter, MigrationTask.InCredit, MigrationTask.isOpen], by omega⟩
  | crashed costUsd => exact absurd houtcome (hback costUsd)

/-- A verdict about a task that has succeeded gives no credit. -/
theorem credit_blamedTask {t : MigrationTask} (hsucceeded : t.status = .succeeded)
    (capHit : Bool) (analysis : ErrorAnalysis) :
    (blamedTask capHit analysis t).InCredit ∧ (blamedTask capHit analysis t).credit ≤ t.credit := by
  have hbefore := credit_of_succeeded hsucceeded
  have hcount : (blamedTask capHit analysis t).retryCount = t.retryCount + 1 := rfl
  have hmax : (blamedTask capHit analysis t).maxRetries = t.maxRetries := rfl
  by_cases hcap : capHit = true ∨ ¬ analysis.isRetryable = true ∨ t.retryCount + 1 > t.maxRetries
  · have hstatus : (blamedTask capHit analysis t).status = .needsHuman := by
      simp only [blamedTask, if_pos hcap]
    obtain ⟨hzero, hin⟩ := credit_of_closed (Or.inl hstatus)
    exact ⟨hin, by omega⟩
  · have hstatus : (blamedTask capHit analysis t).status = .retrying := by
      simp only [blamedTask, if_neg hcap]
    have hreopened := credit_of_open (MigrationTask.isOpen_iff.mpr (Or.inr hstatus))
    push Not at hcap
    exact ⟨fun _ => by omega, by omega⟩

/-- No move gives credit. -/
theorem credit_move {s : GraphState} {t t' : MigrationTask} (h : TaskMove s t t')
    (hcredit : t.InCredit) : t'.InCredit ∧ t'.credit ≤ t.credit := by
  cases h with
  | kept => exact ⟨hcredit, le_refl _⟩
  | dispatched r htask hwave =>
    subst htask
    by_cases hback : ∀ costUsd, r.outcome ≠ .crashed costUsd
    · have hopen := (ready_of_mem_nextWave hwave).1
      obtain ⟨hin, hless⟩ := credit_after hopen hcredit hback
      exact ⟨hin, by omega⟩
    · push Not at hback
      obtain ⟨costUsd, hcrashed⟩ := hback
      have hafter : r.after = r.task := by simp [BranchRecord.after, hcrashed]
      rw [hafter]
      exact ⟨hcredit, le_refl _⟩
  | escalated =>
    obtain ⟨hzero, hin⟩ := credit_of_closed (t := { t with status := .needsHuman }) (Or.inl rfl)
    exact ⟨hin, by omega⟩
  | aborted =>
    obtain ⟨hzero, hin⟩ := credit_of_closed (t := { t with status := .skipped }) (Or.inr rfl)
    exact ⟨hin, by omega⟩
  | blamed capHit analysis hsucceeded => exact credit_blamedTask hsucceeded capHit analysis

/-- Whoever has left dispatch stays out. -/
theorem status_of_move {s : GraphState} {t t' : MigrationTask} (h : TaskMove s t t')
    (hclosed : t.status = .needsHuman ∨ t.status = .skipped) : t'.status = t.status := by
  cases h with
  | kept => rfl
  | dispatched r _ hwave =>
    have hopen := (ready_of_mem_nextWave hwave).1
    rw [MigrationTask.isOpen_iff] at hopen
    rcases hclosed with h | h <;> simp [h] at hopen
  | escalated hsucceeded | blamed _ _ hsucceeded =>
    rcases hclosed with h | h <;> simp [h] at hsucceeded
  | aborted hunfinished =>
    rcases hclosed with h | h <;> simp [h, TaskStatus.unfinished] at hunfinished

/-! ### One superstep -/

section Steps

variable [UnicodeData] {c c' : Snapshot} {i : Input} {tasks : List MigrationTask}

/-- Every dispatch is paid for: in a step that does not raise, what is dispatched and the
credit that is left never exceed the credit there was. -/
theorem credit_superstep (hc : InLoop tasks c) (hin : ∀ t ∈ c.state.tasks, t.InCredit)
    (h : Superstep c i c') (hback : ∀ exc, c'.next ≠ .raised exc) :
    ∃ f, c'.state.tasks = c.state.tasks.map f ∧ ∀ t ∈ c.state.tasks,
      (f t).plan = t.plan ∧ (f t).InCredit ∧
        dispatches c'.trace t.id + (f t).credit ≤ dispatches c.trace t.id + t.credit := by
  classical
  by_cases hwave : ∃ sends, c.next = .editors sends
  · obtain ⟨sends, hnext⟩ := hwave
    obtain ⟨arrivals, -, harrivals, htrace,
      ⟨-, exc, hraised, -⟩ | ⟨-, updates, log, hok, hstate⟩⟩ :=
        superstep_of_editors hc.placed hnext h
    · exact absurd hraised (hback exc)
    obtain ⟨htasks, hmoved, hkeep⟩ := tasks_afterWave hc.placed hnext harrivals log
    have hperm := records_perm_nextWave hc.placed hnext harrivals
    refine ⟨_, by rw [hstate]; exact htasks, ?_⟩
    intro t ht
    rw [htrace, dispatches_cons_wave hperm, count_nextWave hc.placed.nodup ht]
    split_ifs with hmem
    · obtain ⟨r, hr, htask⟩ := List.mem_map.mp (hperm.mem_iff.mpr hmem)
      subst htask
      rw [hmoved r hr]
      obtain ⟨hin', hless⟩ := credit_after (ready_of_mem_nextWave hmem).1 (hin _ ht)
        (not_crashed_of_runWave hok r hr)
      refine ⟨?_, hin', by omega⟩
      simp [MigrationTask.plan]
    · rw [hkeep t ht hmem]
      exact ⟨rfl, hin t ht, by omega⟩
  · push Not at hwave
    obtain ⟨f, htasks, hmoves⟩ := tasks_moved hc.placed h hc.synthesized
    obtain ⟨e, htrace, hbranches⟩ := trace_of_not_editors hwave h
    refine ⟨f, htasks, ?_⟩
    intro t ht
    obtain ⟨hin', hless⟩ := credit_move (hmoves t ht) (hin t ht)
    rw [htrace, dispatches_cons_of_branches hbranches]
    exact ⟨(hmoves t ht).plan_eq, hin', by omega⟩

/-- No step dispatches a task twice, or one that is not open. -/
theorem dispatches_superstep (hc : InLoop tasks c) (h : Superstep c i c') {t : MigrationTask}
    (ht : t ∈ c.state.tasks) :
    dispatches c'.trace t.id ≤ dispatches c.trace t.id + if t.isOpen then 1 else 0 := by
  classical
  by_cases hwave : ∃ sends, c.next = .editors sends
  · obtain ⟨sends, hnext⟩ := hwave
    obtain ⟨arrivals, -, harrivals, htrace, -⟩ := superstep_of_editors hc.placed hnext h
    have hperm := records_perm_nextWave hc.placed hnext harrivals
    rw [htrace, dispatches_cons_wave hperm, count_nextWave hc.placed.nodup ht]
    split_ifs with hmem hopen
    · omega
    · exact absurd (ready_of_mem_nextWave hmem).1 hopen
    · omega
    · omega
  · push Not at hwave
    obtain ⟨e, htrace, hbranches⟩ := trace_of_not_editors hwave h
    rw [htrace, dispatches_cons_of_branches hbranches]
    omega

/-- The books of the loop: no task has been dispatched more often than its cap allows, and
its credit covers what is still to come. -/
structure Thrifty (tasks : List MigrationTask) (c : Snapshot) : Prop where
  loop : InLoop tasks c
  inCredit : ∀ t ∈ c.state.tasks, t.InCredit
  within : ∀ t ∈ c.state.tasks, (dispatches c.trace t.id : ℤ) ≤ t.maxRetries + 1
  paid : (∀ exc, c.next ≠ .raised exc) → ∀ t ∈ c.state.tasks,
    (dispatches c.trace t.id : ℤ) + t.credit ≤ t.maxRetries + 1

theorem Thrifty.superstep (hc : Thrifty tasks c) (h : Superstep c i c') : Thrifty tasks c' := by
  have hpaid := hc.paid fun exc => next_ne_raised h
  obtain ⟨f, htasks, hmoves⟩ := tasks_moved hc.loop.placed h hc.loop.synthesized
  refine ⟨hc.loop.superstep h, ?_, ?_, ?_⟩
  · intro t' ht'
    rw [htasks] at ht'
    obtain ⟨t, ht, rfl⟩ := List.mem_map.mp ht'
    exact (credit_move (hmoves t ht) (hc.inCredit t ht)).1
  · intro t' ht'
    rw [htasks] at ht'
    obtain ⟨t, ht, rfl⟩ := List.mem_map.mp ht'
    rw [(hmoves t ht).id_eq, (hmoves t ht).maxRetries_eq]
    have hmore := dispatches_superstep hc.loop h ht
    have hcovered := hpaid t ht
    split_ifs at hmore with hopen
    · have hpos := credit_pos (hc.inCredit t ht) hopen
      omega
    · omega
  · intro hback t' ht'
    obtain ⟨g, htasks', hcredit⟩ := credit_superstep hc.loop hc.inCredit h hback
    rw [htasks'] at ht'
    obtain ⟨t, ht, rfl⟩ := List.mem_map.mp ht'
    obtain ⟨hplan, -, hless⟩ := hcredit t ht
    simp only [MigrationTask.plan, Prod.mk.injEq] at hplan
    rw [hplan.1, hplan.2.2]
    have hcovered := hpaid t ht
    omega

/-! ### The number of supersteps -/

/-- How many supersteps can follow before the next wave comes back. -/
def Next.rank : Next → ℕ
  | .node .budgetReconcile => 7
  | .node .sandboxTest => 6
  | .node .aggregate => 5
  | .node .requestApproval => 4
  | .node .approvalGate => 3
  | .node .errorAnalysis | .paused => 2
  | .node .prPublish | .node .budgetAbort | .editors _ => 1
  | .node .comprehension | .node .synthesis | .finished | .raised _ => 0

def Snapshot.stepsOwed (c : Snapshot) : ℕ :=
  7 * (c.state.tasks.map MigrationTask.credit).sum + c.next.rank

omit [UnicodeData] in
theorem rank_of_dispatched {noReadyTasks next : Next} {gate : GateReadings} {s : GraphState}
    (h : Dispatched noReadyTasks gate s next) : next.rank ≤ max 1 noReadyTasks.rank := by
  cases h <;> simp [Next.rank]

/-- Between two waves the graph only goes downhill. -/
theorem rank_superstep (hc : InLoop tasks c) (h : Superstep c i c')
    (hnext : ∀ sends, c.next ≠ .editors sends) : c'.next.rank < c.next.rank := by
  cases h with
  | raised hraising =>
    cases hraising with
    | comprehension hnode => exact absurd hnode hc.comprehended
    | synthesis hnode => exact absurd hnode hc.synthesized
    | wave hsends => exact absurd hsends (hnext _)
    | budgetReconcile hnode | sandboxTest hnode | errorAnalysis hnode =>
      simp [hnode, Next.rank]
  | comprehension hnode => exact absurd hnode hc.comprehended
  | synthesis hnode => exact absurd hnode hc.synthesized
  | wave hsends => exact absurd hsends (hnext _)
  | budgetReconcile hnode hroute =>
    have hrank := rank_of_dispatched (dispatched_of_dispatch hroute)
    simp only [Snapshot.moved_next, hnode, Next.rank] at hrank ⊢
    omega
  | errorAnalysis hnode _ hroute =>
    have hrank := rank_of_dispatched (dispatched_of_dispatch hroute)
    simp only [Snapshot.moved_next, hnode, Next.rank] at hrank ⊢
    omega
  | sandboxTest hnode =>
    simp only [Snapshot.moved_next, hnode]
    split <;> simp [Next.rank]
  | aggregate hnode =>
    simp only [Snapshot.moved_next, hnode, routeAfterAggregate]
    repeat' split
    all_goals simp [Next.rank]
  | resume hnode =>
    simp only [Snapshot.moved_next, hnode]
    split <;> simp [Next.rank]
  | requestApproval hnode | approvalGate hnode | prPublish hnode | budgetAbort hnode =>
    simp [hnode, Next.rank]

theorem sum_credit_le (hc : Thrifty tasks c) (h : Superstep c i c') :
    (c'.state.tasks.map MigrationTask.credit).sum ≤
      (c.state.tasks.map MigrationTask.credit).sum := by
  obtain ⟨f, htasks, hmoves⟩ := tasks_moved hc.loop.placed h hc.loop.synthesized
  rw [htasks, List.map_map]
  refine List.sum_le_sum ?_
  intro t ht
  exact (credit_move (hmoves t ht) (hc.inCredit t ht)).2

/-- A wave that comes back has used up credit. -/
theorem sum_credit_lt (hc : Thrifty tasks c) (h : Superstep c i c') {sends : List Send}
    (hnext : c.next = .editors sends) (hback : ∀ exc, c'.next ≠ .raised exc) :
    (c'.state.tasks.map MigrationTask.credit).sum <
      (c.state.tasks.map MigrationTask.credit).sum := by
  classical
  obtain ⟨f, htasks, hcredit⟩ := credit_superstep hc.loop hc.inCredit h hback
  obtain ⟨arrivals, -, harrivals, htrace, -⟩ := superstep_of_editors hc.loop.placed hnext h
  have hperm := records_perm_nextWave hc.loop.placed hnext harrivals
  have hgrows : ∀ t ∈ c.state.tasks, dispatches c.trace t.id ≤ dispatches c'.trace t.id := by
    intro t _
    rw [htrace, dispatches_cons_wave hperm]
    omega
  obtain ⟨t, hwave⟩ := List.exists_mem_of_ne_nil _
    (nextWave_ne_nil (hc.loop.placed.wave sends hnext).2.1)
  have ht := mem_tasks_of_mem_nextWave hwave
  rw [htasks, List.map_map]
  refine List.sum_lt_sum _ _ ?_ ⟨t, ht, ?_⟩
  · intro t ht
    have hless := (hcredit t ht).2.2
    have hmore := hgrows t ht
    simp only [Function.comp_apply]
    omega
  · have hless := (hcredit t ht).2.2
    rw [htrace, dispatches_cons_wave hperm, count_nextWave hc.loop.placed.nodup ht,
      if_pos hwave] at hless
    simp only [Function.comp_apply]
    omega

theorem stepsOwed_superstep (hc : Thrifty tasks c) (h : Superstep c i c') :
    c'.stepsOwed < c.stepsOwed := by
  have hle := sum_credit_le hc h
  unfold Snapshot.stepsOwed
  by_cases hwave : ∃ sends, c.next = .editors sends
  · obtain ⟨sends, hnext⟩ := hwave
    obtain ⟨-, -, -, -, ⟨-, exc, hraised, -⟩ | ⟨hjoin, -⟩⟩ :=
      superstep_of_editors hc.loop.placed hnext h
    · simp only [hnext, hraised, Next.rank]
      omega
    · have hlt := sum_credit_lt hc h hnext (by simp [hjoin])
      simp only [hnext, hjoin, Next.rank]
      omega
  · push Not at hwave
    have hrank := rank_superstep hc.loop h hwave
    omega

end Steps

section Runs

variable [UnicodeData]

variable {config : MigrationRunConfig} {budget : BudgetState} {maxRetryRounds : ℤ}
  {comprehension : ComprehensionResult} {tasks : List MigrationTask} {gate : GateReadings}
  {inputs later : List Input} {c c' : Snapshot}

omit [UnicodeData] in
theorem thrifty_planned (hnd : (tasks.map MigrationTask.id).Nodup)
    (hfresh : ∀ t ∈ tasks, t.status = .pending ∧ t.retryCount = 0 ∧ 0 ≤ t.maxRetries) :
    Thrifty tasks
      (planned (plannedState config budget maxRetryRounds comprehension tasks) gate) := by
  have hcredit : ∀ t ∈ tasks, t.isOpen = true ∧ t.retryCount = 0 ∧ 0 ≤ t.maxRetries := by
    intro t ht
    obtain ⟨hstatus, hcount, hmax⟩ := hfresh t ht
    exact ⟨MigrationTask.isOpen_iff.mpr (Or.inl hstatus), hcount, hmax⟩
  refine ⟨inLoop_planned
    (s := plannedState config budget maxRetryRounds comprehension tasks) gate hnd, ?_, ?_, ?_⟩
  · intro t ht _
    obtain ⟨-, hcount, hmax⟩ := hcredit t ht
    omega
  · intro t ht
    obtain ⟨-, -, hmax⟩ := hcredit t ht
    simp only [planned, dispatches_nil]
    omega
  · intro _ t ht
    obtain ⟨hopen, hcount, hmax⟩ := hcredit t ht
    simp only [planned, dispatches_nil, credit_of_open hopen, hcount]
    omega

theorem thrifty_of_run (hstart : Thrifty tasks c) (hrun : graph.Run c inputs c') :
    Thrifty tasks c' :=
  hrun.invariant (I := Thrifty tasks) hstart
    fun _ _ _ hc hstep _ => hc.superstep (superstep_of_step hstep)

omit [UnicodeData] in
theorem stepsOwed_planned
    (hfresh : ∀ t ∈ tasks, t.status = .pending ∧ t.retryCount = 0 ∧ 0 ≤ t.maxRetries) :
    (planned (plannedState config budget maxRetryRounds comprehension tasks) gate).stepsOwed ≤
      7 * (tasks.map fun t => (t.maxRetries + 1).toNat).sum + 6 := by
  have hsum : tasks.map MigrationTask.credit = tasks.map fun t => (t.maxRetries + 1).toNat := by
    refine List.map_congr_left ?_
    intro t ht
    obtain ⟨hstatus, hcount, -⟩ := hfresh t ht
    rw [credit_of_open (MigrationTask.isOpen_iff.mpr (Or.inl hstatus)), hcount, sub_zero]
  have hrank : (planned (plannedState config budget maxRetryRounds comprehension tasks)
      gate).next.rank ≤ 6 := by
    unfold planned
    cases hroute : dispatch (.node .sandboxTest) gate
        (plannedState config budget maxRetryRounds comprehension tasks) with
    | error exc => simp [Next.rank]
    | ok next => exact rank_of_dispatched (dispatched_of_dispatch hroute)
  have htasks : (planned (plannedState config budget maxRetryRounds comprehension tasks)
      gate).state.tasks = tasks := rfl
  unfold Snapshot.stepsOwed
  rw [htasks, hsum]
  omega

/-- Whoever is escalated or skipped stays so for the rest of the run. -/
theorem status_absorbing (hc : InLoop tasks c) (hlater : graph.Run c later c') {id : String}
    {st : TaskStatus} (hclosed : st = .needsHuman ∨ st = .skipped)
    (hstatus : statusById c.state.tasks id = some st) :
    statusById c'.state.tasks id = some st := by
  have hboth : InLoop tasks c' ∧ statusById c'.state.tasks id = some st := by
    refine hlater.invariant
      (I := fun c => InLoop tasks c ∧ statusById c.state.tasks id = some st) ⟨hc, hstatus⟩ ?_
    rintro c i c' ⟨hc, hstatus⟩ hstep -
    have h := superstep_of_step hstep
    have hc' := hc.superstep h
    obtain ⟨f, htasks, hmoves⟩ := tasks_moved hc.placed h hc.synthesized
    refine ⟨hc', (statusById_eq_some hc'.placed.nodup).mpr ?_⟩
    obtain ⟨t, ht, rfl, rfl⟩ := (statusById_eq_some hc.placed.nodup).mp hstatus
    refine ⟨f t, by rw [htasks]; exact List.mem_map_of_mem ht, (hmoves t ht).id_eq, ?_⟩
    exact status_of_move (hmoves t ht) hclosed
  exact hboth.2

/-- Behind synthesis every run is over after a bounded number of supersteps, each task is
dispatched at most once more than its cap, and a task that is escalated or skipped
stays so. A run stops at the end, in front of the reviewer, or where a node raised. -/
theorem loop_terminates (hnd : (tasks.map MigrationTask.id).Nodup)
    (hfresh : ∀ t ∈ tasks, t.status = .pending ∧ t.retryCount = 0 ∧ 0 ≤ t.maxRetries)
    (hrun : graph.Run (planned (plannedState config budget maxRetryRounds comprehension tasks)
      gate) inputs c) :
    inputs.length ≤ 7 * (tasks.map fun t => (t.maxRetries + 1).toNat).sum + 6 ∧
      (c.next = .finished ∨ c.next = .paused ∨ (∃ exc, c.next = .raised exc) ∨
        ∃ i c', graph.step c i = some c') ∧
      (∀ t ∈ tasks, (dispatches c.trace t.id : ℤ) ≤ t.maxRetries + 1) ∧
      ∀ later c' id st, graph.Run c later c' → st = .needsHuman ∨ st = .skipped →
        statusById c.state.tasks id = some st → statusById c'.state.tasks id = some st := by
  have hstart : Thrifty tasks (planned
      (plannedState config budget maxRetryRounds comprehension tasks) gate) :=
    thrifty_planned hnd hfresh
  have hthrifty := thrifty_of_run hstart hrun
  refine ⟨?_, exists_step c, ?_, ?_⟩
  · have hlength : inputs.length + c.stepsOwed ≤ (planned
        (plannedState config budget maxRetryRounds comprehension tasks) gate).stepsOwed :=
      hrun.length_le hstart
        (fun _ _ _ hc hstep _ => hc.superstep (superstep_of_step hstep))
        (fun _ _ _ hc hstep _ => stepsOwed_superstep hc (superstep_of_step hstep))
    have howed : (planned (plannedState config budget maxRetryRounds comprehension tasks)
        gate).stepsOwed ≤ 7 * (tasks.map fun t => (t.maxRetries + 1).toNat).sum + 6 :=
      stepsOwed_planned hfresh
    omega
  · intro t ht
    obtain ⟨t', ht', hplan⟩ := hthrifty.loop.exists_task ht
    simp only [MigrationTask.plan, Prod.mk.injEq] at hplan
    rw [← hplan.1, ← hplan.2.2]
    exact hthrifty.within t' ht'
  · intro later c' id st hlater hclosed hstatus
    exact status_absorbing hthrifty.loop hlater hclosed hstatus

end Runs

section Directory

attribute [local instance] asciiTables

/-- The editor answers with a file whose path is the workspace itself, which cannot be opened
for writing. -/
def directoryRun : List Input :=
  [.editors [(0, writesAt 0 ".")], .budgetReconcile (gateAt 0), suite .passed]

theorem run_stops_in_sandbox :
    ∃ (c : Snapshot) (exc : PyException),
      graph.Run (startWith [{ id := "task::order" }]) directoryRun c ∧ c.next = .raised exc ∧
        ∀ i c', graph.step c i ≠ some c' := by
  have hreplay : (replay (startWith [{ id := "task::order" }]) directoryRun).any
      (fun c => c.next.isRaised) = true := by decide +kernel
  obtain ⟨c, hrun, hend⟩ := exists_run_of_replay hreplay
  obtain ⟨exc, hraised⟩ := Next.isRaised_iff.mp hend
  refine ⟨c, exc, hrun, hraised, ?_⟩
  intro i c' hstep
  exact next_ne_raised (superstep_of_step hstep) hraised

theorem loop_terminates_directoryRun :
    ∃ c : Snapshot, directoryRun.length ≤ 34 ∧ (dispatches c.trace "task::order" : ℤ) ≤ 4 := by
  have hreplay : (replay (startWith [{ id := "task::order" }]) directoryRun).any
      (fun c => c.next.isRaised) = true := by decide +kernel
  obtain ⟨c, hrun, -⟩ := exists_run_of_replay hreplay
  obtain ⟨hlength, -, hdispatches, -⟩ := loop_terminates (by simp) (by simp) hrun
  refine ⟨c, hlength, ?_⟩
  have hcount := hdispatches { id := "task::order" } (by simp)
  simpa using hcount

end Directory

end StackMigrate
