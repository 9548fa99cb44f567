import StackMigrate.Graph.Replay

/-!
# A run that skips a task

Tasks are skipped by `budget_abort`, and by an editor branch that finds the budget used
up. Between the gate that let the branch pass and the branch itself only the wall clock
can have run out, so the next gate sees it too, provided that it looks: with nothing
ready it does not.
-/

namespace StackMigrate

open KeyedList

def HasSkipped (s : GraphState) : Prop := ∃ t ∈ s.tasks, t.status = .skipped

instance (s : GraphState) : Decidable (HasSkipped s) :=
  inferInstanceAs (Decidable (∃ t ∈ s.tasks, t.status = .skipped))

/-- The wall clock had run out by the latest reading. -/
def OutOfTime (c : Snapshot) : Prop :=
  (c.state.budget.maxWallClockSeconds : ℚ) ≤ c.clock - c.state.budget.startedAt

/-- Time moves forward, and no gate is passed with a task skipped and none ready. -/
def GateLooks (c : Snapshot) (i : Input) (_ : Snapshot) : Prop :=
  Chronological c i ∧
    (c.next = .node .budgetReconcile → HasSkipped c.state → getReadyTasks c.state.tasks ≠ [])

instance (c : Snapshot) (i : Input) (c' : Snapshot) : Decidable (GateLooks c i c') := by
  unfold GateLooks
  infer_instance

/-- Where a run can stand once a task is skipped. -/
inductive AbortStage (c : Snapshot) : Prop
  | reconciling (hnext : c.next = .node .budgetReconcile) (hlate : OutOfTime c)
  | aborting (hnext : c.next = .node .budgetAbort)
  | aborted (hnext : c.next = .finished) (hphase : c.state.phase = some .abortedBudget)

/-- The runner was executed, or the publisher called. -/
def Event.runsCode : Event → Bool
  | sandboxTest (.ran _ _) | prPublish (.called _) => true
  | _ => false

/-! ### How a task gets skipped -/

theorem outcome_of_status_after {r : BranchRecord} (h : r.after.status = .skipped)
    (hopen : r.task.isOpen = true) : r.outcome = .skipped := by
  unfold BranchRecord.after at h
  split at h
  · assumption
  · simp only [failedTask] at h
    split_ifs at h
  · cases h
  · rw [MigrationTask.isOpen_iff] at hopen
    rw [h] at hopen
    rcases hopen with h | h <;> cases h

/-- A branch that skips its task has seen the budget exhausted. -/
theorem exhausted_of_skipped {send : Send} {b : BranchInput}
    (h : (editorNode send b).record.outcome = .skipped) :
    send.budget.isExhausted b.now = true := by
  have hpass := editorNode_pass send b
  generalize editorNode send b = r at h hpass
  cases hpass with
  | skipped _ hexhausted => exact hexhausted
  | _ => cases h

/-- Exhausted now and not exhausted at some other reading: the wall clock has run out. -/
theorem wallClock_of_isExhausted {b : BudgetState} {now other : ℚ}
    (hnow : b.isExhausted now = true) (hother : b.isExhausted other = false) :
    (b.maxWallClockSeconds : ℚ) ≤ now - b.startedAt := by
  rw [b.isExhausted_iff] at hnow
  rw [b.not_isExhausted_iff] at hother
  obtain ⟨hcost, hcalls, -⟩ := hother
  rcases hnow with h | h | h
  · exact absurd h (not_le.mpr hcost)
  · exact absurd h (not_le.mpr hcalls)
  · exact h

theorem not_hasSkipped_analysis {s : GraphState} {answer : AnalysisInput} {event : Event}
    {u : Update} (hnd : (s.tasks.map MigrationTask.id).Nodup)
    (hpass : AnalysisPass s answer event u) (hno : ¬ HasSkipped s) : ¬ HasSkipped (s.apply u) := by
  have hescalate : ∀ t ∈ escalate (candidateTasks s), t.status ≠ .skipped := by
    intro t ht
    obtain ⟨t₀, -, rfl⟩ := List.mem_map.mp ht
    simp
  have hnew : ∀ new, u.tasks = some new → ∀ t ∈ new, t.status ≠ .skipped := by
    intro new hu
    cases hpass with
    | nothingToBlame => cases hu
    | exhausted =>
      cases hu
      exact hescalate
    | callFailed =>
      cases hu
      exact hescalate
    | answered =>
      simp only at hu
      split_ifs at hu
      cases hu
      intro t ht
      obtain ⟨t₀, -, a, -, -, rfl⟩ := (mem_blamedTasks hnd).mp ht
      simp only [blamedTask]
      split_ifs <;> simp
  rintro ⟨t, ht, hskipped⟩
  rw [GraphState.apply_tasks] at ht
  cases hu : u.tasks with
  | none =>
    rw [hu] at ht
    exact hno ⟨t, ht, hskipped⟩
  | some new =>
    rw [hu] at ht
    rcases mem_of_mem_upsertAll ht with hold | ht
    · exact hno ⟨t, mem_of_mem_collect hold, hskipped⟩
    · exact hnew new hu t ht hskipped

/-- After a wave in which a branch skipped, the wall clock has run out. -/
theorem outOfTime_of_wave {c : Snapshot} {sends : List Send} {arrivals : List (ℕ × BranchInput)}
    (hp : Placed c.state c.next) (hnext : c.next = .editors sends) {log : List String}
    (harrivals : (arrivals.map Prod.fst).Perm (List.range sends.length))
    (hno : ¬ HasSkipped c.state)
    (hskipped : HasSkipped (c.state.afterWave (runWave (arrivalOrder sends arrivals)).2 log)) :
    (c.state.budget.maxWallClockSeconds : ℚ) ≤
      (Input.editors arrivals).latest c.clock - c.state.budget.startedAt := by
  obtain ⟨t, ht, hst⟩ := hskipped
  rcases mem_of_mem_upsertAll ht with hold | hnew
  · exact absurd ⟨t, hold, hst⟩ hno
  obtain ⟨r, hr, rfl⟩ := List.mem_map.mp hnew
  have hwave : r.task ∈ nextWave c.state :=
    (records_perm_nextWave hp hnext harrivals).mem_iff.mp (List.mem_map_of_mem hr)
  have houtcome := outcome_of_status_after hst (ready_of_mem_nextWave hwave).1
  rw [records_runWave] at hr
  obtain ⟨⟨send, b⟩, hmem, rfl⟩ := List.mem_map.mp hr
  obtain ⟨hsend, k, hk⟩ := mem_arrivalOrder hmem
  obtain ⟨hsends, -, -, other, hother⟩ := hp.wave sends hnext
  have hbudget : send.budget = c.state.budget := budget_of_mem_sendsFor (hsends ▸ hsend)
  have hexhausted := exhausted_of_skipped houtcome
  rw [hbudget] at hexhausted
  have hlate := wallClock_of_isExhausted hexhausted hother
  have hreading : b.now ≤ (Input.editors arrivals).latest c.clock :=
    le_latest (List.mem_map.mpr ⟨(k, b), hk, rfl⟩) (by simp)
  linarith

/-! ### Skipping leads to the abort -/

section Steps

variable [UnicodeData] {c c' : Snapshot} {i : Input}

theorem hasSkipped_superstep (hp : Placed c.state c.next) (h : Superstep c i c')
    (hskipped : HasSkipped c.state) : HasSkipped c'.state := by
  obtain ⟨t, ht, hst⟩ := hskipped
  have hplanned : c.next ≠ .node .synthesis := by
    intro hnext
    rw [hp.unplanned (Or.inr hnext)] at ht
    cases ht
  obtain ⟨f, htasks, hmoves⟩ := tasks_moved hp h hplanned
  refine ⟨f t, by rw [htasks]; exact List.mem_map_of_mem ht, ?_⟩
  have hmove := hmoves t ht
  generalize f t = t' at hmove
  cases hmove with
  | kept => exact hst
  | dispatched r _ hwave =>
    have hopen := (ready_of_mem_nextWave hwave).1
    rw [MigrationTask.isOpen_iff, hst] at hopen
    rcases hopen with h | h <;> cases h
  | escalated hsucceeded | blamed _ _ hsucceeded =>
    rw [hst] at hsucceeded
    cases hsucceeded
  | aborted => rfl

/-- The gate that looks at the budget after a skip aborts. -/
theorem abort_of_reconciling (hnext : c.next = .node .budgetReconcile) (hlate : OutOfTime c)
    (hclock : Chronological c i) (hready : getReadyTasks c.state.tasks ≠ [])
    (h : Superstep c i c') :
    c'.next = .node .budgetAbort ∧ c'.trace = .budgetReconcile :: c.trace := by
  obtain ⟨gate, rfl, htrace, hcases⟩ := superstep_of_reconcile hnext h
  have hexhausted : c.state.reconciled.budget.isExhausted gate.first = true := by
    have hreadings := hclock [gate.first, gate.second] (by simp [Input.readings])
    have hfirst : c.clock ≤ gate.first := (List.pairwise_cons.mp hreadings).1 _ (by simp)
    have hlimits := c.state.budget.recordAll_limits
      (c.state.budgetDeltas.drop c.state.budgetDeltasConsumed)
    rw [BudgetState.isExhausted_iff]
    right
    right
    simp only [GraphState.reconciled, GraphState.apply_budget, Option.getD_some, hlimits]
    unfold OutOfTime at hlate
    linarith
  refine ⟨?_, htrace⟩
  rcases hcases with ⟨exc, hroute, -, -⟩ | ⟨hroute, -⟩
  · have hleft := (reserve_of_dispatch_error hroute).1
    rw [hexhausted] at hleft
    cases hleft
  · have hdispatched := dispatched_of_dispatch hroute
    generalize c'.next = next at hdispatched ⊢
    cases hdispatched with
    | nothingReady hnone => exact absurd hnone (by simpa [GraphState.reconciled] using hready)
    | exhausted => rfl
    | crossed _ hfirst => simp [hexhausted] at hfirst
    | wave _ hfirst => simp [hexhausted] at hfirst

theorem finish_of_aborting (hnext : c.next = .node .budgetAbort) (h : Superstep c i c') :
    c'.next = .finished ∧ c'.state.phase = some .abortedBudget ∧
      c'.trace = .budgetAbort :: c.trace := by
  cases h with
  | raised hraising => cases hraising <;> simp_all
  | budgetAbort _ hu =>
    cases hu
    exact ⟨rfl, rfl, rfl⟩
  | _ => simp_all

theorem abortStage_superstep (hp : Placed c.state c.next)
    (hstage : HasSkipped c.state → AbortStage c) (hok : GateLooks c i c')
    (h : Superstep c i c') : HasSkipped c'.state → AbortStage c' := by
  intro hskipped'
  by_cases hskipped : HasSkipped c.state
  · cases hstage hskipped with
    | reconciling hnext hlate =>
      exact .aborting (abort_of_reconciling hnext hlate hok.1 (hok.2 hnext hskipped) h).1
    | aborting hnext =>
      obtain ⟨hend, hphase, -⟩ := finish_of_aborting hnext h
      exact .aborted hend hphase
    | aborted hnext => exact absurd hnext (next_ne_finished h)
  have hsame : c'.state.tasks = c.state.tasks → AbortStage c' := by
    intro htasks
    unfold HasSkipped at hskipped hskipped'
    rw [htasks] at hskipped'
    exact absurd hskipped' hskipped
  cases h with
  | raised => exact hsame rfl
  | comprehension _ hpass => exact hsame (by cases hpass <;> rfl)
  | synthesis hnext hpass =>
    exfalso
    obtain ⟨t, ht, hst⟩ := hskipped'
    cases hpass with
    | noPlan => exact hskipped ⟨t, ht, hst⟩
    | planned comprehension =>
      rcases mem_of_mem_upsertAll ht with hold | hnew
      · exact hskipped ⟨t, mem_of_mem_collect hold, hst⟩
      · simp only [runSynthesis, List.mem_map] at hnew
        obtain ⟨path, -, rfl⟩ := hnew
        cases hst
  | wave hnext harrivals hupdates =>
    obtain ⟨log, hlog⟩ := applyAll_wave hp.nodup hupdates
    rw [Snapshot.moved_state, hlog] at hskipped'
    refine .reconciling rfl ?_
    have hlate := outOfTime_of_wave hp hnext harrivals hskipped hskipped'
    simpa [OutOfTime, hlog, GraphState.afterWave] using hlate
  | budgetReconcile => exact hsame rfl
  | sandboxTest _ hpass => exact hsame (by cases hpass <;> rfl)
  | errorAnalysis _ hpass =>
    exact absurd hskipped' (not_hasSkipped_analysis hp.nodup hpass hskipped)
  | aggregate _ hpass => exact hsame (by cases hpass <;> rfl)
  | requestApproval => exact hsame rfl
  | approvalGate => exact hsame rfl
  | resume _ hpass => exact hsame (by cases hpass <;> rfl)
  | prPublish _ hpass => exact hsame (by cases hpass <;> rfl)
  | budgetAbort _ hu =>
    cases hu
    exact .aborted rfl rfl

/-- At most two more supersteps: the gate and the abort. -/
def Snapshot.stepsLeft (c : Snapshot) : ℕ :=
  match c.next with
  | .node .budgetReconcile => 2
  | .node .budgetAbort => 1
  | _ => 0

theorem abortStage_progress (hstage : AbortStage c) (hskipped : HasSkipped c.state)
    (hok : GateLooks c i c') (h : Superstep c i c') :
    c'.stepsLeft < c.stepsLeft ∧
      ∃ e, c'.trace = e :: c.trace ∧ e.runsCode = false := by
  cases hstage with
  | reconciling hnext hlate =>
    obtain ⟨hnext', htrace⟩ := abort_of_reconciling hnext hlate hok.1 (hok.2 hnext hskipped) h
    exact ⟨by simp [Snapshot.stepsLeft, hnext, hnext'], _, htrace, rfl⟩
  | aborting hnext =>
    obtain ⟨hnext', -, htrace⟩ := finish_of_aborting hnext h
    exact ⟨by simp [Snapshot.stepsLeft, hnext, hnext'], _, htrace, rfl⟩
  | aborted hnext => exact absurd hnext (next_ne_finished h)

end Steps

section Runs

variable [UnicodeData] {config : MigrationRunConfig} {limits : BudgetLimits} {maxRetryRounds : ℤ}
  {startedAt : ℚ} {inputs later : List Input} {c c' : Snapshot}

theorem abortStage_of_run
    (hrun : graph.RunWhere GateLooks (initial config limits maxRetryRounds startedAt) inputs c) :
    Placed c.state c.next ∧ (HasSkipped c.state → AbortStage c) := by
  refine ⟨placed_of_run hrun, hrun.invariant_under
    (J := fun c => HasSkipped c.state → AbortStage c) placed_of_run ?_ ?_⟩
  · rintro ⟨t, ht, -⟩
    simp [initial] at ht
  · intro c i c' hp hstage hstep hok
    exact abortStage_superstep hp hstage hok (superstep_of_step hstep)

/-- In a run whose gates look at the budget whenever a task is skipped, a skip is followed
by the gate and the abort only: no code is run, nothing is published, and the run ends
as aborted. -/
theorem skipping_aborts_the_run
    (hrun : graph.RunWhere GateLooks (initial config limits maxRetryRounds startedAt) inputs c)
    (hskipped : ∃ t ∈ c.state.tasks, t.status = .skipped)
    (hlater : graph.RunWhere GateLooks c later c') :
    (c'.next = .node .budgetReconcile ∨ c'.next = .node .budgetAbort ∨
        (c'.next = .finished ∧ c'.state.phase = some .abortedBudget)) ∧
      later.length ≤ 2 ∧
      ∃ fresh, c'.trace = fresh ++ c.trace ∧ ∀ e ∈ fresh, e.runsCode = false := by
  obtain ⟨hp, hstage⟩ := abortStage_of_run hrun
  have hinv : ∀ c i c', (Placed c.state c.next ∧ HasSkipped c.state ∧ AbortStage c) →
      graph.step c i = some c' → GateLooks c i c' →
      Placed c'.state c'.next ∧ HasSkipped c'.state ∧ AbortStage c' := by
    rintro c i c' ⟨hp, hskipped, hstage⟩ hstep hok
    have h := superstep_of_step hstep
    have hskipped' := hasSkipped_superstep hp h hskipped
    exact ⟨placed_superstep hp h, hskipped',
      abortStage_superstep hp (fun _ => hstage) hok h hskipped'⟩
  have hstart := And.intro hp (And.intro hskipped (hstage hskipped))
  have hlength : later.length + c'.stepsLeft ≤ c.stepsLeft := by
    refine hlater.length_le hstart hinv ?_
    rintro c i c' ⟨-, hskipped, hstage⟩ hstep hok
    exact (abortStage_progress hstage hskipped hok (superstep_of_step hstep)).1
  have hfresh : ∃ fresh, c'.trace = fresh ++ c.trace ∧ ∀ e ∈ fresh, e.runsCode = false := by
    have hboth : (Placed c'.state c'.next ∧ HasSkipped c'.state ∧ AbortStage c') ∧
        ∃ fresh, c'.trace = fresh ++ c.trace ∧ ∀ e ∈ fresh, e.runsCode = false := by
      refine hlater.invariant
        (I := fun x => (Placed x.state x.next ∧ HasSkipped x.state ∧ AbortStage x) ∧
          ∃ fresh, x.trace = fresh ++ c.trace ∧ ∀ e ∈ fresh, e.runsCode = false)
        ⟨hstart, [], by simp, by simp⟩ ?_
      rintro x i x' ⟨hI, fresh, htrace, hquiet⟩ hstep hok
      refine ⟨hinv x i x' hI hstep hok, ?_⟩
      obtain ⟨-, e, htrace', he⟩ := abortStage_progress hI.2.2 hI.2.1 hok (superstep_of_step hstep)
      refine ⟨e :: fresh, by rw [htrace', htrace, List.cons_append], ?_⟩
      intro e' he'
      rcases List.mem_cons.mp he' with rfl | he'
      · exact he
      · exact hquiet e' he'
    exact hboth.2
  refine ⟨?_, ?_, hfresh⟩
  · have hlast := hlater.invariant
      (I := fun c => Placed c.state c.next ∧ HasSkipped c.state ∧ AbortStage c) hstart hinv
    cases hlast.2.2 with
    | reconciling hnext _ => exact Or.inl hnext
    | aborting hnext => exact Or.inr (Or.inl hnext)
    | aborted hnext hphase => exact Or.inr (Or.inr ⟨hnext, hphase⟩)
  · have htwo : c.stepsLeft ≤ 2 := by
      unfold Snapshot.stepsLeft
      split <;> omega
    omega

end Runs

section Late

attribute [local instance] asciiTables

/-- The hour ends between the gate and the second branch of the only wave. The service that
came through is tested and published, the other one is left out. -/
def lateBranchRun : List Input :=
  planServices [serviceFile "OrderService" [], serviceFile "StockService" []] ++
    [.editors [(0, writesAt 0 "app/services/order_service.py"), (1, writesAt 3600 "unused")],
      .budgetReconcile (gateAt 3600), suite .passed, .aggregate,
      .prPublish (.ok demoPullRequest)]

theorem skipped_run_is_published :
    ∃ (c : Snapshot) (call : PublishCall) (earlier : List Event),
      graph.RunWhere (fun c i _ => Chronological c i) (initial unattendedConfig demoLimits 5 0)
          lateBranchRun c ∧
        (∃ t ∈ c.state.tasks, t.status = .skipped) ∧
        c.trace = .prPublish (.called call) :: earlier ∧ c.next = .finished ∧
        c.state.phase = some .done := by
  have hexec : (graph.exec (fun c i _ => Chronological c i)
      (initial unattendedConfig demoLimits 5 0) lateBranchRun).any (fun c =>
        endsPublishing c && c.next.isFinished && decide (c.state.phase = some .done) &&
          decide (HasSkipped c.state)) = true := by decide +kernel
  obtain ⟨c, hrun, hend⟩ := DrivenSystem.exists_runWhere_of_exec hexec
  simp only [Bool.and_eq_true, decide_eq_true_eq, Next.isFinished_iff] at hend
  obtain ⟨⟨⟨hends, hfinished⟩, hphase⟩, hskipped⟩ := hend
  obtain ⟨call, earlier, htrace⟩ := trace_of_endsPublishing hends
  exact ⟨c, call, earlier, hrun, hskipped, htrace, hfinished, hphase⟩

/-- The same crossing with a third service still ready: the gate looks, and aborts. -/
def lateBranchWithWork : List Input :=
  planServices [serviceFile "OrderService" [], serviceFile "StockService" [],
      serviceFile "CartService" ["OrderService"]] ++
    [.editors [(0, writesAt 0 "app/services/order_service.py"), (1, writesAt 3600 "unused")]]

theorem skipping_aborts_the_run_lateBranchWithWork :
    ∃ c c' : Snapshot, (∃ t ∈ c.state.tasks, t.status = .skipped) ∧ c'.next = .finished ∧
      c'.state.phase = some .abortedBudget := by
  have hexec : (graph.exec GateLooks (initial unattendedConfig demoLimits 5 0)
      lateBranchWithWork).any (fun c => decide (HasSkipped c.state) &&
        (graph.exec GateLooks c [.budgetReconcile (gateAt 3600), .budgetAbort 3600 3600]).any
          fun c' => c'.next.isFinished) = true := by decide +kernel
  obtain ⟨c, hrun, hend⟩ := DrivenSystem.exists_runWhere_of_exec hexec
  simp only [Bool.and_eq_true, decide_eq_true_eq] at hend
  obtain ⟨hskipped, hexec'⟩ := hend
  obtain ⟨c', hlater, hfinished⟩ := DrivenSystem.exists_runWhere_of_exec hexec'
  rw [Next.isFinished_iff] at hfinished
  obtain ⟨hnext, -, -⟩ := skipping_aborts_the_run hrun hskipped hlater
  refine ⟨c, c', hskipped, hfinished, ?_⟩
  rcases hnext with h | h | h
  · rw [hfinished] at h
    cases h
  · rw [hfinished] at h
    cases h
  · exact h.2

end Late

end StackMigrate
