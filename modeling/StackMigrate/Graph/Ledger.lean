import StackMigrate.Graph.TaskMoves

/-!
# Who charges the budget

Three supersteps charge the budget: comprehension, reconciliation and error analysis. A
wave only appends what its calls cost, and the reconciliation behind it charges exactly
that.
-/

namespace StackMigrate

/-- The deltas that no reconciliation has charged yet. -/
def GraphState.unreconciled (s : GraphState) : List ℚ :=
  s.budgetDeltas.drop s.budgetDeltasConsumed

/-- No delta was added, and none was charged. -/
def SameDeltas (s s' : GraphState) : Prop :=
  s'.budgetDeltas = s.budgetDeltas ∧ s'.budgetDeltasConsumed = s.budgetDeltasConsumed

/-- What one superstep does to budget and deltas. -/
inductive Charge [UnicodeData] (c : Snapshot) : Input → Snapshot → Prop
  | none {i c'} (hbudget : c'.state.budget = c.state.budget)
      (hdeltas : SameDeltas c.state c'.state)
      (hnext : c'.next ≠ .node .budgetReconcile)
      (hraised : c.next = .node .budgetReconcile → ∃ exc, c'.next = .raised exc) : Charge c i c'
  | extraction {answer c'} (st : ExtractionState) (run : ComprehensionRun)
      (hleft : c.state.budget.isExhausted answer.now = false)
      (hrun : runComprehension c.state.config.localCheckoutPath c.state.config.scopeDescription
        c.state.config.sourceStack c.state.budget.remainingUsd answer.answers = (st, .ok run))
      (hbudget : c'.state.budget = c.state.budget.recordCall run.totalCost 1 false)
      (hdeltas : SameDeltas c.state c'.state)
      (hnode : c.next = .node .comprehension) (hnext : c'.next ≠ .node .budgetReconcile)
      (htrace : c'.trace = .comprehension st.calls st.stoppedEarly :: c.trace) :
      Charge c (.comprehension answer) c'
  | wave {sends arrivals c'} (hsends : c.next = .editors sends)
      (harrivals : (arrivals.map Prod.fst).Perm (List.range sends.length))
      (hbudget : c'.state.budget = c.state.budget)
      (hdeltas : c'.state.budgetDeltas = c.state.budgetDeltas ++
        (runWave (arrivalOrder sends arrivals)).2.flatMap BranchRecord.costs)
      (hconsumed : c'.state.budgetDeltasConsumed = c.state.budgetDeltasConsumed)
      (hnext : c'.next = .node .budgetReconcile)
      (htrace : c'.trace = .wave (runWave (arrivalOrder sends arrivals)).2 :: c.trace) :
      Charge c (.editors arrivals) c'
  | reconciliation {gate c'} (hnode : c.next = .node .budgetReconcile)
      (hbudget : c'.state.budget = c.state.budget.recordAll c.state.unreconciled)
      (hdeltas : c'.state.budgetDeltas = c.state.budgetDeltas)
      (hconsumed : c'.state.budgetDeltasConsumed = c'.state.budgetDeltas.length)
      (hnext : c'.next ≠ .node .budgetReconcile) : Charge c (.budgetReconcile gate) c'
  | analysis {answer gate c'} (result : ErrorAnalysisLLMResult) (costUsd : ℚ)
      (inputTokens outputTokens : ℤ) (hleft : c.state.budget.isExhausted answer.now = false)
      (houtcome : answer.outcome = .responded (some result) costUsd inputTokens outputTokens)
      (hbudget : c'.state.budget = c.state.budget.recordCall costUsd)
      (hdeltas : SameDeltas c.state c'.state)
      (hnode : c.next = .node .errorAnalysis) (hnext : c'.next ≠ .node .budgetReconcile)
      (htrace : c'.trace = .errorAnalysis (.returned costUsd) :: c.trace) :
      Charge c (.errorAnalysis answer gate) c'

theorem ne_reconcile_of_dispatched {noReadyTasks next : Next} {gate : GateReadings}
    {s : GraphState} (hedge : noReadyTasks = .node .sandboxTest ∨ noReadyTasks = .finished)
    (h : Dispatched noReadyTasks gate s next) : next ≠ .node .budgetReconcile := by
  rcases next_of_dispatched hedge h with ⟨sends, rfl⟩ | rfl | rfl | rfl <;> simp

section Steps

variable [UnicodeData] {c c' : Snapshot} {i : Input}

omit [UnicodeData] in
theorem sameDeltas_apply {s : GraphState} {u : Update} (hdeltas : u.budgetDeltas = [])
    (hconsumed : u.budgetDeltasConsumed = none) : SameDeltas s (s.apply u) := by
  simp [SameDeltas, hdeltas, hconsumed]

theorem charge_of_superstep (hp : Placed c.state c.next) (h : Superstep c i c') :
    Charge c i c' := by
  have hquiet : ∀ {u : Update} {event : Event} {next : Next}, u.budget = none →
      u.budgetDeltas = [] → u.budgetDeltasConsumed = none → c.next ≠ .node .budgetReconcile →
      next ≠ .node .budgetReconcile → Charge c i (c.moved i event (c.state.apply u) next) := by
    intro u event next hbudget hdeltas hconsumed hnode hnext
    refine .none ?_ (sameDeltas_apply hdeltas hconsumed) hnext fun h => absurd h hnode
    simp [hbudget]
  cases h with
  | raised hraising =>
    exact .none rfl ⟨rfl, rfl⟩ (by simp) fun _ => ⟨_, rfl⟩
  | comprehension hnext hpass =>
    have hroute : ∀ s, routeAfterComprehension s ≠ .node .budgetReconcile := by
      intro s
      unfold routeAfterComprehension
      split <;> simp
    cases hpass with
    | exhausted => exact hquiet rfl rfl rfl (by simp [hnext]) (hroute _)
    | ran st run hleft hrun =>
      exact .extraction st run hleft hrun rfl (sameDeltas_apply rfl rfl) hnext (hroute _) rfl
  | synthesis hnext hpass hroute =>
    have hgate := ne_reconcile_of_dispatched (Or.inl rfl) (dispatched_of_dispatch hroute)
    cases hpass <;> exact hquiet rfl rfl rfl (by simp [hnext]) hgate
  | wave hnext harrivals hupdates =>
    obtain ⟨log, hlog⟩ := applyAll_wave hp.nodup hupdates
    refine .wave hnext harrivals ?_ ?_ ?_ rfl rfl <;> rw [Snapshot.moved_state, hlog] <;> rfl
  | budgetReconcile hnext hroute =>
    have hgate := ne_reconcile_of_dispatched (Or.inl rfl) (dispatched_of_dispatch hroute)
    refine .reconciliation hnext rfl ?_ ?_ hgate <;> simp [GraphState.reconciled]
  | sandboxTest hnext hpass =>
    refine hquiet ?_ ?_ ?_ (by simp [hnext]) ?_
    · cases hpass <;> rfl
    · cases hpass <;> rfl
    · cases hpass <;> rfl
    · split <;> simp
  | errorAnalysis hnext hpass hroute =>
    have hgate := ne_reconcile_of_dispatched (Or.inr rfl) (dispatched_of_dispatch hroute)
    cases hpass with
    | answered log result costUsd inputTokens outputTokens _ hleft houtcome =>
      exact .analysis result costUsd inputTokens outputTokens hleft houtcome rfl
        (sameDeltas_apply rfl rfl) hnext hgate rfl
    | _ => exact hquiet rfl rfl rfl (by simp [hnext]) hgate
  | aggregate hnext hpass =>
    refine hquiet ?_ ?_ ?_ (by simp [hnext]) ?_
    · cases hpass <;> rfl
    · cases hpass <;> rfl
    · cases hpass <;> rfl
    · unfold routeAfterAggregate
      repeat' split
      all_goals simp
  | requestApproval hnext => exact hquiet rfl rfl rfl (by simp [hnext]) (by simp)
  | approvalGate hnext => exact .none rfl ⟨rfl, rfl⟩ (by simp) (by simp [hnext])
  | resume hnext hpass =>
    refine hquiet ?_ ?_ ?_ (by simp [hnext]) ?_
    · cases hpass <;> rfl
    · cases hpass <;> rfl
    · cases hpass <;> rfl
    · split <;> simp
  | prPublish hnext hpass =>
    refine hquiet ?_ ?_ ?_ (by simp [hnext]) (by simp)
    all_goals cases hpass <;> rfl
  | budgetAbort hnext hu =>
    cases hu
    exact hquiet rfl rfl rfl (by simp [hnext]) (by simp)

/-- The ceilings of a run never change. -/
theorem limits_superstep (hp : Placed c.state c.next) (h : Superstep c i c') :
    c'.state.budget.maxUsd = c.state.budget.maxUsd ∧
      c'.state.budget.maxLlmCalls = c.state.budget.maxLlmCalls ∧
      c'.state.budget.defaultCallReserveUsd = c.state.budget.defaultCallReserveUsd := by
  cases charge_of_superstep hp h with
  | none hbudget | wave _ _ hbudget => simp [hbudget]
  | extraction _ _ _ _ hbudget | analysis _ _ _ _ _ _ hbudget => simp [hbudget]
  | reconciliation _ hbudget =>
    have hlimits := c.state.budget.recordAll_limits c.state.unreconciled
    rw [hbudget]
    exact ⟨hlimits.1, hlimits.2.1, hlimits.2.2.2.2⟩

/-- All deltas are charged, but for those of a wave that has just come back and those a
raising router has left behind. -/
def Settled (c : Snapshot) : Prop :=
  c.next ≠ .node .budgetReconcile → (∀ exc, c.next ≠ .raised exc) →
    c.state.budgetDeltasConsumed = c.state.budgetDeltas.length

theorem settled_superstep (hp : Placed c.state c.next) (hc : Settled c) (h : Superstep c i c') :
    Settled c' := by
  have hraised : ∀ exc, c.next ≠ .raised exc := fun exc => next_ne_raised h
  intro hnext' hback
  cases charge_of_superstep hp h with
  | none _ hdeltas _ hreconcile =>
    by_cases hnode : c.next = .node .budgetReconcile
    · obtain ⟨exc, hexc⟩ := hreconcile hnode
      exact absurd hexc (hback exc)
    · rw [hdeltas.1, hdeltas.2, hc hnode hraised]
  | extraction _ _ _ _ _ hdeltas hnode | analysis _ _ _ _ _ _ _ hdeltas hnode =>
    rw [hdeltas.1, hdeltas.2, hc (by simp [hnode]) hraised]
  | wave _ _ _ _ _ hnext => exact absurd hnext hnext'
  | reconciliation _ _ _ hconsumed => exact hconsumed

omit [UnicodeData] in
theorem SameDeltas.unreconciled_eq {s s' : GraphState} (h : SameDeltas s s') :
    s'.unreconciled = s.unreconciled := by
  rw [GraphState.unreconciled, h.1, h.2, GraphState.unreconciled]

omit [UnicodeData] in
theorem unreconciled_eq_nil {s : GraphState}
    (h : s.budgetDeltasConsumed = s.budgetDeltas.length) : s.unreconciled = [] := by
  rw [GraphState.unreconciled, h, List.drop_length]

omit [UnicodeData] in
theorem Settled.unreconciled_eq_nil (hc : Settled c) (hnext : c.next ≠ .node .budgetReconcile)
    (hraised : ∀ exc, c.next ≠ .raised exc) : c.state.unreconciled = [] :=
  StackMigrate.unreconciled_eq_nil (hc hnext hraised)

omit [UnicodeData] in
/-- Behind a wave, the costs of its calls are what is left to charge. -/
theorem unreconciled_of_wave (hc : Settled c) {sends : List Send} (hsends : c.next = .editors sends)
    {costs : List ℚ} (hdeltas : c'.state.budgetDeltas = c.state.budgetDeltas ++ costs)
    (hconsumed : c'.state.budgetDeltasConsumed = c.state.budgetDeltasConsumed) :
    c'.state.unreconciled = costs := by
  have hsettled := hc (by simp [hsends]) (by simp [hsends])
  rw [GraphState.unreconciled, hdeltas, hconsumed, hsettled, List.drop_left]

end Steps

/-! ### Books that are always in order -/

/-- With a reserve to divide by, no router raises, and the deltas are charged wherever the run
stands beside `budget_reconcile`. -/
structure Books (c : Snapshot) : Prop where
  placed : Placed c.state c.next
  reserve : c.state.budget.ReserveSet
  charged : c.next ≠ .node .budgetReconcile →
    c.state.budgetDeltasConsumed = c.state.budgetDeltas.length

theorem books_initial (config : MigrationRunConfig) (limits : BudgetLimits)
    (maxRetryRounds : ℤ) (startedAt : ℚ) :
    Books (initial config limits maxRetryRounds startedAt) :=
  ⟨placed_initial _ _ _ _, Or.inr (by norm_num [initial]), fun _ => rfl⟩

namespace Books

variable [UnicodeData] {c c' : Snapshot} {i : Input}

omit [UnicodeData] in
theorem unreconciled_eq_nil (hc : Books c) (hnext : c.next ≠ .node .budgetReconcile) :
    c.state.unreconciled = [] :=
  StackMigrate.unreconciled_eq_nil (hc.charged hnext)

/-- The reconciliation comes through. -/
theorem reconciled (hc : Books c) (hnext : c.next = .node .budgetReconcile)
    (h : Superstep c i c') :
    ∃ gate, i = .budgetReconcile gate ∧ c'.trace = .budgetReconcile :: c.trace ∧
      dispatch (.node .sandboxTest) gate c.state.reconciled = .ok c'.next ∧
      c'.state = c.state.reconciled := by
  obtain ⟨gate, rfl, htrace, ⟨exc, hexc, -⟩ | ⟨hroute, hstate⟩⟩ := superstep_of_reconcile hnext h
  · have hzero := (reserve_of_dispatch_error hexc).2
    have hset : c.state.reconciled.budget.ReserveSet := hc.reserve.recordAll _
    exact absurd hzero hset.callReserve_ne_zero
  · exact ⟨gate, rfl, htrace, hroute, hstate⟩

theorem superstep (hc : Books c) (h : Superstep c i c') : Books c' := by
  refine ⟨placed_superstep hc.placed h, ?_, ?_⟩
  · cases charge_of_superstep hc.placed h with
    | none hbudget | wave _ _ hbudget =>
      rw [hbudget]
      exact hc.reserve
    | extraction _ _ _ _ hbudget | analysis _ _ _ _ _ _ hbudget =>
      rw [hbudget]
      exact hc.reserve.recordCall _ _ _
    | reconciliation _ hbudget =>
      rw [hbudget]
      exact hc.reserve.recordAll _
  · intro hnext'
    cases charge_of_superstep hc.placed h with
    | none _ hdeltas _ hraised =>
      by_cases hnode : c.next = .node .budgetReconcile
      · obtain ⟨gate, -, -, hroute, -⟩ := hc.reconciled hnode h
        obtain ⟨exc, hexc⟩ := hraised hnode
        have hplaces := next_of_dispatched (Or.inl rfl) (dispatched_of_dispatch hroute)
        simp [hexc] at hplaces
      · rw [hdeltas.1, hdeltas.2, hc.charged hnode]
    | extraction _ _ _ _ _ hdeltas hnode | analysis _ _ _ _ _ _ _ hdeltas hnode =>
      rw [hdeltas.1, hdeltas.2, hc.charged (by simp [hnode])]
    | wave _ _ _ _ _ hnext => exact absurd hnext hnext'
    | reconciliation _ _ _ hconsumed => exact hconsumed

end Books

theorem books_of_run [UnicodeData] {config : MigrationRunConfig} {limits : BudgetLimits}
    {maxRetryRounds : ℤ} {startedAt : ℚ} {ok : Snapshot → Input → Snapshot → Prop}
    {inputs : List Input} {c : Snapshot}
    (hrun : graph.RunWhere ok (initial config limits maxRetryRounds startedAt) inputs c) :
    Books c :=
  hrun.invariant (books_initial _ _ _ _) fun _ _ _ hc hstep _ =>
    hc.superstep (superstep_of_step hstep)

/-- A branch reports at most one cost, so a wave reports at most one for each of its sends. -/
theorem length_costs_le {sends : List Send} {arrivals : List (ℕ × BranchInput)}
    (harrivals : (arrivals.map Prod.fst).Perm (List.range sends.length)) :
    ((runWave (arrivalOrder sends arrivals)).2.flatMap BranchRecord.costs).length ≤
      sends.length := by
  have hone : ∀ records : List BranchRecord,
      (records.flatMap BranchRecord.costs).length ≤ records.length := by
    intro records
    induction records with
    | nil => simp
    | cons r rest ih =>
      have hr : r.costs.length ≤ 1 := by
        unfold BranchRecord.costs
        split <;> simp
      simp only [List.flatMap_cons, List.length_append, List.length_cons]
      omega
  have hlen := (tasks_of_records harrivals).length_eq
  simp only [List.length_map] at hlen
  exact (hone _).trans hlen.le

end StackMigrate
