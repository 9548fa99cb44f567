import StackMigrate.Graph.Replay
import StackMigrate.Properties.Acyclicity
import Mathlib.Algebra.Order.BigOperators.Group.List

/-!
# Waves in dependency order

While the budget lasts and every editor call succeeds, the loop alternates between a wave
and its reconciliation. Tasks are pending and untouched, or have succeeded in exactly one
dispatch; in an acyclic plan something is ready as long as anything is pending.
-/

namespace StackMigrate

open Blocking KeyedList

/-! ### The loop without failures -/

/-- The generator answers with files. -/
def BranchInput.succeeds (i : BranchInput) : Bool :=
  match i.outcome with
  | .responded (some _) _ _ _ => true
  | _ => false

/-- A superstep of the loop in which the budget is not exhausted at any of its readings and
every editor call succeeds. -/
def Flawless (c : Snapshot) (i : Input) (c' : Snapshot) : Prop :=
  match i with
  | .editors arrivals =>
    ∀ a ∈ arrivals, c.state.budget.isExhausted a.2.now = false ∧ a.2.succeeds = true
  | .budgetReconcile gate =>
    c'.state.budget.isExhausted gate.first = false ∧
      c'.state.budget.isExhausted gate.second = false
  | _ => False

instance (c : Snapshot) (i : Input) (c' : Snapshot) : Decidable (Flawless c i c') :=
  match i with
  | .editors arrivals => inferInstanceAs (Decidable (∀ a ∈ arrivals,
      c.state.budget.isExhausted a.2.now = false ∧ a.2.succeeds = true))
  | .budgetReconcile gate => inferInstanceAs (Decidable
      (c'.state.budget.isExhausted gate.first = false ∧
        c'.state.budget.isExhausted gate.second = false))
  | .comprehension _ | .synthesis _ | .sandboxTest _ | .errorAnalysis _ _ | .aggregate
  | .requestApproval | .approvalGate | .resume _ | .prPublish _ | .budgetAbort _ _ =>
    inferInstanceAs (Decidable False)

/-- The branch came back with code. -/
def BranchRecord.Succeeded (r : BranchRecord) : Prop :=
  ∃ result costUsd, r.outcome = .succeeded result costUsd

theorem BranchRecord.Succeeded.after_eq {r : BranchRecord} (h : r.Succeeded) :
    r.after = { r.task with status := .succeeded } := by
  obtain ⟨result, costUsd, houtcome⟩ := h
  simp [BranchRecord.after, houtcome]

theorem editorNode_succeeded {send : Send} {b : BranchInput}
    (hleft : send.budget.isExhausted b.now = false) (hok : b.succeeds = true) :
    (editorNode send b).record.Succeeded ∧ ∃ u, (editorNode send b).update = .ok u := by
  have hpass := editorNode_pass send b
  generalize editorNode send b = r at hpass ⊢
  cases hpass with
  | skipped _ hexhausted =>
    rw [hleft] at hexhausted
    cases hexhausted
  | failed _ exc _ houtcome => simp [BranchInput.succeeds, houtcome] at hok
  | crashed _ _ _ _ _ houtcome => simp [BranchInput.succeeds, houtcome] at hok
  | succeeded result generated costUsd =>
    exact ⟨⟨result, costUsd, rfl⟩, _, rfl⟩

/-- A wave comes back if each of its branches does. -/
theorem runWave_ok {branches : List (Send × BranchInput)}
    (h : ∀ b ∈ branches, ∃ u, (editorNode b.1 b.2).update = .ok u) :
    ∃ updates, (runWave branches).1 = .ok updates := by
  induction branches with
  | nil => exact ⟨[], rfl⟩
  | cons b rest ih =>
    obtain ⟨u, hu⟩ := h b (by simp)
    obtain ⟨us, hus⟩ := ih fun b' hb' => h b' (List.mem_cons_of_mem b hb')
    refine ⟨u :: us, ?_⟩
    simp only [runWave, List.map_cons, List.mapM_cons] at hus ⊢
    simp [hu, hus, bind, Except.bind, pure, Except.pure]

section Wave

variable [UnicodeData] {c c' : Snapshot} {i : Input} {sends : List Send}
  {arrivals : List (ℕ × BranchInput)}

omit [UnicodeData] in
theorem branches_succeeded (hp : Placed c.state c.next) (hnext : c.next = .editors sends)
    (hok : Flawless c (.editors arrivals) c') :
    ∀ b ∈ arrivalOrder sends arrivals, (editorNode b.1 b.2).record.Succeeded ∧
      ∃ u, (editorNode b.1 b.2).update = .ok u := by
  intro b hb
  obtain ⟨hsend, k, hk⟩ := mem_arrivalOrder hb
  have hbudget : b.1.budget = c.state.budget :=
    budget_of_mem_sendsFor ((hp.wave sends hnext).1 ▸ hsend)
  obtain ⟨hleft, hanswer⟩ := hok (k, b.2) hk
  exact editorNode_succeeded (hbudget ▸ hleft) hanswer

/-- A flawless wave marks exactly its tasks as succeeded. -/
theorem superstep_of_flawless_wave (hp : Placed c.state c.next) (hnext : c.next = .editors sends)
    (hok : Flawless c i c') (h : Superstep c i c') :
    ∃ records, c'.trace = .wave records :: c.trace ∧ c'.next = .node .budgetReconcile ∧
      c'.state.budget = c.state.budget ∧
      (records.map BranchRecord.task).Perm (nextWave c.state) ∧
      (∀ r ∈ records, r.Succeeded) ∧
      ∃ f, c'.state.tasks = c.state.tasks.map f ∧
        (∀ t ∈ nextWave c.state, f t = { t with status := .succeeded }) ∧
        ∀ t ∈ c.state.tasks, t ∉ nextWave c.state → f t = t := by
  obtain ⟨arrivals, rfl, harrivals, htrace, hcases⟩ := superstep_of_editors hp hnext h
  have hall := branches_succeeded hp hnext hok
  have hperm := records_perm_nextWave hp hnext harrivals
  have hsucceeded : ∀ r ∈ (runWave (arrivalOrder sends arrivals)).2, r.Succeeded := by
    intro r hr
    rw [records_runWave] at hr
    obtain ⟨b, hb, rfl⟩ := List.mem_map.mp hr
    exact (hall b hb).1
  rcases hcases with ⟨-, exc, -, hcrashed⟩ | ⟨hjoin, updates, log, -, hstate⟩
  · obtain ⟨updates, hupdates⟩ := runWave_ok fun b hb => (hall b hb).2
    rw [hupdates] at hcrashed
    cases hcrashed
  · obtain ⟨htasks, hmoved, hkeep⟩ := tasks_afterWave hp hnext harrivals log
    refine ⟨_, htrace, hjoin, by rw [hstate]; rfl, hperm, hsucceeded, _,
      by rw [hstate]; exact htasks, ?_, hkeep⟩
    intro t ht
    obtain ⟨r, hr, rfl⟩ := List.mem_map.mp (hperm.mem_iff.mpr ht)
    rw [hmoved r hr, (hsucceeded r hr).after_eq]

/-- A flawless reconciliation dispatches the next wave, or finds nothing ready. -/
theorem superstep_of_flawless_reconcile (hnext : c.next = .node .budgetReconcile)
    (hreserve : c.state.budget.ReserveSet) (hok : Flawless c i c') (h : Superstep c i c') :
    c'.trace = .budgetReconcile :: c.trace ∧ c'.state.tasks = c.state.tasks ∧
      c'.state.budget.ReserveSet ∧
      ((∃ sends, c'.next = .editors sends) ∨ c'.next = .node .sandboxTest) := by
  have hreserve' : c.state.reconciled.budget.ReserveSet := hreserve.recordAll _
  obtain ⟨gate, rfl, htrace, ⟨exc, hroute, -, -⟩ | ⟨hroute, hstate⟩⟩ :=
    superstep_of_reconcile hnext h
  · exact absurd (reserve_of_dispatch_error hroute).2 hreserve'.callReserve_ne_zero
  · obtain ⟨hfirst, hsecond⟩ := hok
    rw [hstate] at hfirst hsecond ⊢
    refine ⟨htrace, rfl, hreserve', ?_⟩
    have hdispatched := dispatched_of_dispatch hroute
    generalize c'.next = next at hdispatched ⊢
    cases hdispatched with
    | nothingReady => exact Or.inr rfl
    | exhausted _ hexhausted =>
      rw [hfirst] at hexhausted
      cases hexhausted
    | crossed _ _ hexhausted =>
      rw [hsecond] at hexhausted
      cases hexhausted
    | wave => exact Or.inl ⟨_, rfl⟩

end Wave

/-! ### What holds in the loop -/

/-- A wave on record has brought the task to success. -/
def SucceededIn (trace : List Event) (id : String) : Prop :=
  ∃ r ∈ trace.flatMap Event.branches, r.task.id = id ∧ r.Succeeded

/-- Whatever a wave worked on depends on tasks that succeeded in earlier waves only. -/
def InOrder (trace : List Event) : Prop :=
  ∀ later records earlier, trace = later ++ .wave records :: earlier →
    ∀ r ∈ records, ∀ dep ∈ r.task.dependsOnTaskIds, SucceededIn earlier dep

theorem SucceededIn.cons {trace : List Event} {id : String} (h : SucceededIn trace id)
    (e : Event) : SucceededIn (e :: trace) id := by
  obtain ⟨r, hr, hid, hok⟩ := h
  exact ⟨r, by simp [hr], hid, hok⟩

theorem InOrder.cons {trace : List Event} (h : InOrder trace) {e : Event}
    (he : ∀ r ∈ e.branches, ∀ dep ∈ r.task.dependsOnTaskIds, SucceededIn trace dep) :
    InOrder (e :: trace) := by
  intro later records earlier htrace
  cases later with
  | nil =>
    obtain ⟨rfl, rfl⟩ := List.cons.inj htrace
    exact he
  | cons e' later =>
    obtain ⟨rfl, hrest⟩ := List.cons.inj htrace
    exact h later records earlier hrest

/-- The task has not been touched, or one dispatch has brought it to success. -/
def TouchedOnce (trace : List Event) (t : MigrationTask) : Prop :=
  (t.status = .pending ∧ dispatches trace t.id = 0) ∨
    (t.status = .succeeded ∧ dispatches trace t.id = 1 ∧ SucceededIn trace t.id)

structure Scheduled (tasks : List MigrationTask) (c : Snapshot) : Prop where
  loop : InLoop tasks c
  place : (∃ sends, c.next = .editors sends) ∨ c.next = .node .budgetReconcile ∨
    c.next = .node .sandboxTest
  reserve : c.state.budget.ReserveSet
  touched : ∀ t ∈ c.state.tasks, TouchedOnce c.trace t
  ordered : InOrder c.trace

def Event.isWave : Event → Bool
  | wave _ => true
  | _ => false

/-- The number of waves on record. -/
def waves (trace : List Event) : ℕ := trace.countP Event.isWave

/-- The number of tasks that are still pending. -/
def Snapshot.pending (c : Snapshot) : ℕ :=
  (c.state.tasks.map fun t => if t.status = .pending then 1 else 0).sum

def Snapshot.wavesRun (c : Snapshot) : ℕ := waves c.trace

/-- A reconciliation may still have to be paid for. -/
def Snapshot.loopSteps (c : Snapshot) : ℕ :=
  2 * c.pending + if c.next = .node .budgetReconcile then 1 else 0

section Steps

variable [UnicodeData] {c c' : Snapshot} {i : Input} {tasks : List MigrationTask}

omit [UnicodeData] in
/-- Who waits for a task that has succeeded waits for one on record. -/
theorem succeededIn_of_ready (hc : Scheduled tasks c) {t : MigrationTask}
    (ht : t ∈ nextWave c.state) : ∀ dep ∈ t.dependsOnTaskIds, SucceededIn c.trace dep := by
  intro dep hdep
  have hstatus := (ready_of_mem_nextWave ht).2 dep hdep
  obtain ⟨d, hd, rfl, hsucceeded⟩ := (statusById_eq_some hc.loop.placed.nodup).mp hstatus
  rcases hc.touched d hd with ⟨hpending, -⟩ | ⟨-, -, hon⟩
  · rw [hpending] at hsucceeded
    cases hsucceeded
  · exact hon

omit [UnicodeData] in
theorem pending_of_mem_nextWave (hc : Scheduled tasks c) {t : MigrationTask}
    (ht : t ∈ nextWave c.state) : t.status = .pending ∧ dispatches c.trace t.id = 0 := by
  rcases hc.touched t (mem_tasks_of_mem_nextWave ht) with h | ⟨hsucceeded, -⟩
  · exact h
  · have hopen := (ready_of_mem_nextWave ht).1
    rw [MigrationTask.isOpen_iff, hsucceeded] at hopen
    rcases hopen with h | h <;> cases h

theorem Scheduled.superstep (hc : Scheduled tasks c) (hok : Flawless c i c')
    (h : Superstep c i c') : Scheduled tasks c' := by
  classical
  have hloop := hc.loop.superstep h
  rcases hc.place with ⟨sends, hnext⟩ | hnext | hnext
  · obtain ⟨records, htrace, hjoin, hbudget, hperm, hsucceeded, f, htasks, hdone, hkeep⟩ :=
      superstep_of_flawless_wave hc.loop.placed hnext hok h
    refine ⟨hloop, Or.inr (Or.inl hjoin), hbudget ▸ hc.reserve, ?_, ?_⟩
    · intro t' ht'
      rw [htasks] at ht'
      obtain ⟨t, ht, rfl⟩ := List.mem_map.mp ht'
      by_cases hwave : t ∈ nextWave c.state
      · have hcount : dispatches c'.trace t.id = 1 := by
          rw [htrace, dispatches_cons_wave hperm, count_nextWave hc.loop.placed.nodup ht,
            if_pos hwave, (pending_of_mem_nextWave hc hwave).2]
        obtain ⟨r, hr, htask⟩ := List.mem_map.mp (hperm.mem_iff.mpr hwave)
        rw [hdone t hwave]
        refine Or.inr ⟨rfl, hcount, r, ?_, by rw [htask], hsucceeded r hr⟩
        rw [htrace]
        simp [Event.branches, hr]
      · have hcount : dispatches c'.trace t.id = dispatches c.trace t.id := by
          rw [htrace, dispatches_cons_wave hperm, count_nextWave hc.loop.placed.nodup ht,
            if_neg hwave, Nat.zero_add]
        rw [hkeep t ht hwave]
        rcases hc.touched t ht with ⟨hst, hzero⟩ | ⟨hst, hone, hon⟩
        · exact Or.inl ⟨hst, hcount.trans hzero⟩
        · exact Or.inr ⟨hst, hcount.trans hone, htrace ▸ hon.cons _⟩
    · rw [htrace]
      refine hc.ordered.cons ?_
      intro r hr
      exact succeededIn_of_ready hc (hperm.mem_iff.mp (List.mem_map_of_mem hr))
  · obtain ⟨htrace, htasks, hreserve, hplace⟩ :=
      superstep_of_flawless_reconcile hnext hc.reserve hok h
    refine ⟨hloop, ?_, hreserve, ?_, ?_⟩
    · rcases hplace with hplace | hplace
      · exact Or.inl hplace
      · exact Or.inr (Or.inr hplace)
    · intro t ht
      rw [htasks] at ht
      have hcount : dispatches c'.trace t.id = dispatches c.trace t.id := by
        rw [htrace, dispatches_cons_of_branches rfl]
      rcases hc.touched t ht with ⟨hst, hzero⟩ | ⟨hst, hone, hon⟩
      · exact Or.inl ⟨hst, hcount.trans hzero⟩
      · exact Or.inr ⟨hst, hcount.trans hone, htrace ▸ hon.cons _⟩
    · rw [htrace]
      exact hc.ordered.cons (by simp [Event.branches])
  · exfalso
    cases h with
    | raised hraising => cases hraising <;> simp_all [Flawless]
    | _ => simp_all [Flawless]

/-- Every wave takes at least one task out of the pending ones. -/
theorem pending_of_wave (hc : Scheduled tasks c) {sends : List Send}
    (hnext : c.next = .editors sends) (hok : Flawless c i c') (h : Superstep c i c') :
    c'.pending + 1 ≤ c.pending ∧ c'.next = .node .budgetReconcile ∧
      ∃ records, c'.trace = .wave records :: c.trace := by
  classical
  obtain ⟨records, htrace, hjoin, -, -, -, f, htasks, hdone, hkeep⟩ :=
    superstep_of_flawless_wave hc.loop.placed hnext hok h
  refine ⟨?_, hjoin, records, htrace⟩
  obtain ⟨t, hwave⟩ := List.exists_mem_of_ne_nil _
    (nextWave_ne_nil (hc.loop.placed.wave sends hnext).2.1)
  unfold Snapshot.pending
  rw [htasks, List.map_map, Nat.add_one_le_iff]
  refine List.sum_lt_sum _ _ ?_ ⟨t, mem_tasks_of_mem_nextWave hwave, ?_⟩
  · intro t ht
    by_cases hmem : t ∈ nextWave c.state
    · simp [hdone t hmem]
    · simp [hkeep t ht hmem]
  · simp [hdone t hwave, (pending_of_mem_nextWave hc hwave).1]

theorem pending_superstep (hc : Scheduled tasks c) (hok : Flawless c i c')
    (h : Superstep c i c') :
    c'.wavesRun + c'.pending ≤ c.wavesRun + c.pending ∧ c'.loopSteps < c.loopSteps := by
  rcases hc.place with ⟨sends, hnext⟩ | hnext | hnext
  · obtain ⟨hless, hjoin, records, htrace⟩ := pending_of_wave hc hnext hok h
    have hwaves : c'.wavesRun = c.wavesRun + 1 := by
      rw [Snapshot.wavesRun, waves, htrace, List.countP_cons_of_pos rfl]
      rfl
    refine ⟨by omega, ?_⟩
    simp only [Snapshot.loopSteps, hjoin, hnext, if_true]
    simp
    omega
  · obtain ⟨htrace, htasks, -, hplace⟩ := superstep_of_flawless_reconcile hnext hc.reserve hok h
    have hwaves : c'.wavesRun = c.wavesRun := by
      simp [Snapshot.wavesRun, waves, htrace, Event.isWave]
    have hpending : c'.pending = c.pending := by rw [Snapshot.pending, htasks, Snapshot.pending]
    have hleft : c'.next ≠ .node .budgetReconcile := by
      rcases hplace with ⟨sends, hnext'⟩ | hnext' <;> simp [hnext']
    refine ⟨by omega, ?_⟩
    simp only [Snapshot.loopSteps, if_pos hnext, if_neg hleft]
    omega
  · exfalso
    cases h with
    | raised hraising => cases hraising <;> simp_all [Flawless]
    | _ => simp_all [Flawless]

end Steps

/-! ### The whole loop -/

section Runs

variable [UnicodeData] {config : MigrationRunConfig} {budget : BudgetState} {maxRetryRounds : ℤ}
  {comprehension : ComprehensionResult} {tasks : List MigrationTask} {gate : GateReadings}
  {inputs : List Input} {c : Snapshot}

omit [UnicodeData] in
/-- A budget that is not exhausted lets the first wave pass. -/
theorem next_planned {s : GraphState} (hreserve : s.budget.ReserveSet)
    (hfirst : s.budget.isExhausted gate.first = false)
    (hsecond : s.budget.isExhausted gate.second = false) :
    (∃ sends, (planned s gate).next = .editors sends) ∨
      (planned s gate).next = .node .sandboxTest := by
  unfold planned
  cases hroute : dispatch (.node .sandboxTest) gate s with
  | error exc => exact absurd (reserve_of_dispatch_error hroute).2 hreserve.callReserve_ne_zero
  | ok next =>
    have hdispatched := dispatched_of_dispatch hroute
    cases hdispatched with
    | nothingReady => exact Or.inr rfl
    | exhausted _ hexhausted => exact absurd hexhausted (by simp [hfirst])
    | crossed _ _ hexhausted => exact absurd hexhausted (by simp [hsecond])
    | wave => exact Or.inl ⟨_, rfl⟩

omit [UnicodeData] in
theorem scheduled_planned (hnd : (tasks.map MigrationTask.id).Nodup)
    (hpending : ∀ t ∈ tasks, t.status = .pending) (hreserve : budget.ReserveSet)
    (hfirst : budget.isExhausted gate.first = false)
    (hsecond : budget.isExhausted gate.second = false) :
    Scheduled tasks
        (planned (plannedState config budget maxRetryRounds comprehension tasks) gate) ∧
      (planned (plannedState config budget maxRetryRounds comprehension tasks) gate).loopSteps =
        2 * tasks.length := by
  have hnext := next_planned
    (s := plannedState config budget maxRetryRounds comprehension tasks) hreserve hfirst hsecond
  have hcount : (planned (plannedState config budget maxRetryRounds comprehension tasks)
      gate).pending = tasks.length := by
    have hones : (tasks.map fun t => if t.status = .pending then 1 else 0) = tasks.map fun _ => 1 :=
      List.map_congr_left fun t ht => by rw [if_pos (hpending t ht)]
    simp [Snapshot.pending, planned, plannedState, hones]
  refine ⟨⟨?_, ?_, hreserve, fun t ht => Or.inl ⟨hpending t ht, rfl⟩, ?_⟩, ?_⟩
  · exact inLoop_planned (s := plannedState config budget maxRetryRounds comprehension tasks)
      gate hnd
  · rcases hnext with hnext | hnext
    · exact Or.inl hnext
    · exact Or.inr (Or.inr hnext)
  · intro later records earlier htrace
    simp [planned] at htrace
  · have hleft : (planned (plannedState config budget maxRetryRounds comprehension tasks)
        gate).next ≠ .node .budgetReconcile := by
      rcases hnext with ⟨sends, hnext⟩ | hnext <;> simp [hnext]
    rw [Snapshot.loopSteps, hcount, if_neg hleft, Nat.add_zero]

omit [UnicodeData] in
/-- At the end of the loop nothing is pending: in an acyclic and closed plan something would
be ready. -/
theorem succeeded_of_idle (hc : Scheduled tasks c)
    (hclosed : ∀ t ∈ tasks, ∀ dep ∈ t.dependsOnTaskIds, dep ∈ tasks.map MigrationTask.id)
    (hacyclic : Acyclic (TaskWaits tasks)) (hidle : getReadyTasks c.state.tasks = []) :
    ∀ t ∈ c.state.tasks, t.status = .succeeded := by
  have hids : c.state.tasks.map MigrationTask.id = tasks.map MigrationTask.id := by
    have hfst := congrArg (List.map Prod.fst) hc.loop.plan
    simpa [Function.comp_def, MigrationTask.plan] using hfst
  -- the pending tasks would block themselves
  let B : Set String := {id | ∃ t ∈ c.state.tasks, t.id = id ∧ t.status = .pending}
  have hB : SelfBlocking (TaskWaits tasks) B := by
    rintro id ⟨t, ht, rfl, hpending⟩
    obtain ⟨t₀, ht₀, hplan⟩ := hc.loop.exists_planned ht
    simp only [MigrationTask.plan, Prod.mk.injEq] at hplan
    have hnot : t ∉ getReadyTasks c.state.tasks := by simp [hidle]
    rw [mem_getReadyTasks] at hnot
    push Not at hnot
    obtain ⟨dep, hdep, hstatus⟩ := hnot ht (MigrationTask.isOpen_iff.mpr (Or.inl hpending))
    have hknown : dep ∈ c.state.tasks.map MigrationTask.id := by
      rw [hids]
      exact hclosed t₀ ht₀ dep (hplan.2.1 ▸ hdep)
    obtain ⟨d, hd, rfl⟩ := List.mem_map.mp hknown
    refine ⟨d.id, ⟨d, hd, rfl, ?_⟩, t₀, ht₀, hplan.1, hplan.2.1 ▸ hdep⟩
    rcases hc.touched d hd with ⟨hst, -⟩ | ⟨hst, -⟩
    · exact hst
    · rw [statusById_of_mem hc.loop.placed.nodup hd, hst] at hstatus
      exact absurd rfl hstatus
  have hempty := (acyclic_taskWaits_iff tasks).mp hacyclic B hB
  intro t ht
  rcases hc.touched t ht with ⟨hpending, -⟩ | ⟨hsucceeded, -⟩
  · have hmem : t.id ∈ B := ⟨t, ht, rfl, hpending⟩
    rw [hempty] at hmem
    cases hmem
  · exact hsucceeded

/-- While the budget lasts and every call succeeds, the loop is a complete execution of the
plan in dependency order: it only stops in front of the sandbox, after at most one wave a
task, with every task dispatched once and succeeded. -/
theorem loop_schedules_plan (hnd : (tasks.map MigrationTask.id).Nodup)
    (hpending : ∀ t ∈ tasks, t.status = .pending)
    (hclosed : ∀ t ∈ tasks, ∀ dep ∈ t.dependsOnTaskIds, dep ∈ tasks.map MigrationTask.id)
    (hacyclic : Acyclic (TaskWaits tasks)) (hreserve : budget.ReserveSet)
    (hfirst : budget.isExhausted gate.first = false)
    (hsecond : budget.isExhausted gate.second = false)
    (hrun : graph.RunWhere Flawless (planned (plannedState config budget maxRetryRounds
      comprehension tasks) gate) inputs c) :
    ((∃ sends, c.next = .editors sends) ∨ c.next = .node .budgetReconcile ∨
        c.next = .node .sandboxTest) ∧
      (∃ i c', graph.step c i = some c') ∧
      waves c.trace ≤ tasks.length ∧ inputs.length ≤ 2 * tasks.length ∧
      (∀ t ∈ tasks, dispatches c.trace t.id ≤ 1) ∧
      InOrder c.trace ∧
      (c.next = .node .sandboxTest → getReadyTasks c.state.tasks = [] ∧
        (∀ t ∈ c.state.tasks, t.status = .succeeded) ∧
        ∀ t ∈ tasks, dispatches c.trace t.id = 1 ∧ SucceededIn c.trace t.id) := by
  obtain ⟨hstart, hlength⟩ : Scheduled tasks
        (planned (plannedState config budget maxRetryRounds comprehension tasks) gate) ∧
      (planned (plannedState config budget maxRetryRounds comprehension tasks) gate).loopSteps =
        2 * tasks.length :=
    scheduled_planned hnd hpending hreserve hfirst hsecond
  have hinv : ∀ c i c', Scheduled tasks c → graph.step c i = some c' → Flawless c i c' →
      Scheduled tasks c' :=
    fun c i c' hc hstep hok => hc.superstep hok (superstep_of_step hstep)
  have hc := hrun.invariant (I := Scheduled tasks) hstart hinv
  have hwaves : c.wavesRun + c.pending ≤ (planned (plannedState config budget maxRetryRounds
      comprehension tasks) gate).wavesRun + (planned (plannedState config budget
      maxRetryRounds comprehension tasks) gate).pending :=
    hrun.paid hstart hinv fun c i c' hc hstep hok =>
      (pending_superstep hc hok (superstep_of_step hstep)).1
  have hsteps : inputs.length + c.loopSteps ≤ (planned (plannedState config budget
      maxRetryRounds comprehension tasks) gate).loopSteps :=
    hrun.length_le hstart hinv fun c i c' hc hstep hok =>
      (pending_superstep hc hok (superstep_of_step hstep)).2
  have htouched : ∀ t ∈ tasks, ∃ t' ∈ c.state.tasks, t'.id = t.id ∧ TouchedOnce c.trace t' := by
    intro t ht
    obtain ⟨t', ht', hplan⟩ := hc.loop.exists_task ht
    exact ⟨t', ht', congrArg Prod.fst hplan, hc.touched t' ht'⟩
  refine ⟨hc.place, ?_, ?_, by omega, ?_, hc.ordered, ?_⟩
  · have hend := exists_step c
    rcases hc.place with ⟨sends, hnext⟩ | hnext | hnext <;> simpa [hnext] using hend
  · have hnone : (planned (plannedState config budget maxRetryRounds comprehension tasks)
        gate).wavesRun = 0 := rfl
    simp only [Snapshot.loopSteps] at hlength
    have hcount : c.wavesRun = waves c.trace := rfl
    omega
  · intro t ht
    obtain ⟨t', -, hid, ⟨-, hzero⟩ | ⟨-, hone, -⟩⟩ := htouched t ht
    · rw [← hid]
      omega
    · rw [← hid]
      omega
  · intro hend
    have hidle := hc.loop.placed.idle (Or.inl hend)
    have hall := succeeded_of_idle hc hclosed hacyclic hidle
    refine ⟨hidle, hall, ?_⟩
    intro t ht
    obtain ⟨t', ht', hid, ⟨hst, -⟩ | ⟨-, hone, hon⟩⟩ := htouched t ht
    · rw [hall t' ht'] at hst
      cases hst
    · rw [← hid]
      exact ⟨hone, hon⟩

end Runs

section Chain

attribute [local instance] asciiTables

/-- Two tasks, the second of which needs the first. -/
def chainTasks : List MigrationTask :=
  [{ id := "task::stock" }, { id := "task::order", dependsOnTaskIds := ["task::stock"] }]

def chainRun : List Input :=
  [.editors [(0, writesAt 0 "stock.py")], .budgetReconcile (gateAt 0),
    .editors [(0, writesAt 0 "order.py")], .budgetReconcile (gateAt 0)]

theorem acyclic_chainTasks : Acyclic (TaskWaits chainTasks) := by
  have honly : ∀ a b, TaskWaits chainTasks a b → a = "task::order" ∧ b = "task::stock" := by
    rintro a b ⟨t, ht, rfl, hdep⟩
    simp only [chainTasks, List.mem_cons, List.not_mem_nil, or_false] at ht
    rcases ht with rfl | rfl
    · cases hdep
    · exact ⟨rfl, List.mem_singleton.mp hdep⟩
  intro a hcycle
  obtain ⟨b, hab, -⟩ := Relation.TransGen.head'_iff.mp hcycle
  obtain ⟨d, -, hda⟩ := Relation.TransGen.tail'_iff.mp hcycle
  have hto := (honly a b hab).1
  have hfrom := (honly d a hda).2
  rw [hto] at hfrom
  revert hfrom
  decide

/-- The calls of `chainRun`, all of them within the budget. -/
theorem chainRun_flawless :
    ∃ c, graph.RunWhere Flawless (startWith chainTasks) chainRun c ∧
      c.next = .node .sandboxTest := by
  have hexec : (graph.exec Flawless (startWith chainTasks) chainRun).any
      (fun c => decide (c.next = .node .sandboxTest)) = true := by decide +kernel
  obtain ⟨c, hrun, hend⟩ := DrivenSystem.exists_runWhere_of_exec hexec
  exact ⟨c, hrun, of_decide_eq_true hend⟩

theorem loop_schedules_plan_chainRun :
    ∃ c : Snapshot, c.next = .node .sandboxTest ∧ waves c.trace ≤ 2 ∧
      ∀ t ∈ c.state.tasks, t.status = .succeeded := by
  obtain ⟨c, hrun, hend⟩ := chainRun_flawless
  obtain ⟨-, -, hwaves, -, -, -, hstop⟩ := loop_schedules_plan (by decide) (by decide) (by decide)
    acyclic_chainTasks (by simp [BudgetState.ReserveSet, unlimitedBudget]) (by decide +kernel)
    (by decide +kernel) hrun
  exact ⟨c, hend, hwaves, (hstop hend).2.1⟩

end Chain

end StackMigrate
