import StackMigrate.Graph.Ledger
import StackMigrate.Properties.Publication

/-!
# The ceiling on the number of calls

The gate cuts a wave to what the dollars allow and does not look at the calls that are
left. The ceiling holds in the runs whose waves happen to fit.
-/

namespace StackMigrate

/-- The calls left under the ceiling. -/
def BudgetState.callsLeft (b : BudgetState) : ℤ := b.maxLlmCalls - b.llmCallsMade

/-- No more tasks are ready, or no more calls within reserve, than calls are left, or one. -/
def CallsFit (s : GraphState) : Prop :=
  ((getReadyTasks s.tasks).length : ℤ) ≤ max 1 s.budget.callsLeft ∨
    s.budget.callsWithinReserve ≤ max 1 s.budget.callsLeft

instance (s : GraphState) : Decidable (CallsFit s) := by
  unfold CallsFit
  infer_instance

/-- Every gate that is reached with budget left is handed a state in which the calls fit. -/
def WaveFits (_ : Snapshot) (i : Input) (c' : Snapshot) : Prop :=
  match i with
  | .synthesis gate | .budgetReconcile gate | .errorAnalysis _ gate =>
    c'.next.isRaised = false → c'.state.budget.isExhausted gate.first = false →
      c'.state.budget.isExhausted gate.second = false → CallsFit c'.state
  | _ => True

instance (c : Snapshot) (i : Input) (c' : Snapshot) : Decidable (WaveFits c i c') := by
  unfold WaveFits
  split <;> infer_instance

/-- The step overshoots the ceiling by at most one recorded call, and dispatches no wave with
more branches than calls are left, or one. -/
def WithinCallCap (maxLlmCalls : ℤ) (_ : Snapshot) (_ : Input) (c' : Snapshot) : Prop :=
  c'.state.budget.llmCallsMade ≤ max 0 maxLlmCalls + 1 ∧
    ∀ sends, c'.next = .editors sends →
      (sends.length : ℤ) ≤ max 1 (maxLlmCalls - c'.state.budget.llmCallsMade)

/-! ### The size of a wave -/

/-- A gate dispatches a wave that fits exactly if the calls fit. -/
theorem fits_iff_of_dispatched {noReadyTasks next : Next} {gate : GateReadings} {s : GraphState}
    (hedge : noReadyTasks = .node .sandboxTest ∨ noReadyTasks = .finished)
    (h : Dispatched noReadyTasks gate s next) :
    (∀ sends, next = .editors sends → (sends.length : ℤ) ≤ max 1 s.budget.callsLeft) ↔
      (s.budget.isExhausted gate.first = false → s.budget.isExhausted gate.second = false →
        CallsFit s) := by
  cases h with
  | nothingReady hready =>
    have hfits : CallsFit s := by
      left
      rw [hready]
      simp
    refine ⟨fun _ _ _ => hfits, fun _ sends hsends => ?_⟩
    rcases hedge with rfl | rfl <;> cases hsends
  | exhausted _ hfirst => simp [hfirst]
  | crossed _ _ hsecond => simp [hsecond]
  | wave hready hfirst hsecond =>
    have hlength : ((sendsFor s (nextWave s)).length : ℤ) =
        max 1 (min ((getReadyTasks s.tasks).length : ℤ) s.budget.callsWithinReserve) := by
      rw [← length_nextWave hready]
      simp [sendsFor]
    constructor
    · intro hsize _ _
      have hle := hsize _ rfl
      rw [hlength] at hle
      unfold CallsFit
      omega
    · intro hfit sends hsends
      cases hsends
      have hcalls := hfit hfirst hsecond
      unfold CallsFit at hcalls
      rw [hlength]
      omega

section Steps

variable [UnicodeData] {c c' : Snapshot} {i : Input}

theorem fits_iff (h : Superstep c i c') :
    (∀ sends, c'.next = .editors sends → (sends.length : ℤ) ≤ max 1 c'.state.budget.callsLeft) ↔
      WaveFits c i c' := by
  cases h with
  | raised hraising => cases hraising <;> simp [WaveFits, Next.isRaised]
  | comprehension =>
    simp only [WaveFits, iff_true, Snapshot.moved_next, routeAfterComprehension]
    split <;> simp
  | synthesis _ _ hroute | budgetReconcile _ hroute =>
    have hdispatched := dispatched_of_dispatch hroute
    have hback := hdispatched.isRaised_eq_false (Or.inl rfl)
    simpa [WaveFits, hback] using fits_iff_of_dispatched (Or.inl rfl) hdispatched
  | errorAnalysis _ _ hroute =>
    have hdispatched := dispatched_of_dispatch hroute
    have hback := hdispatched.isRaised_eq_false (Or.inr rfl)
    simpa [WaveFits, hback] using fits_iff_of_dispatched (Or.inr rfl) hdispatched
  | sandboxTest =>
    simp only [WaveFits, iff_true, Snapshot.moved_next]
    split <;> simp
  | aggregate =>
    simp only [WaveFits, iff_true, Snapshot.moved_next, routeAfterAggregate]
    repeat' split
    all_goals simp
  | resume =>
    simp only [WaveFits, iff_true, Snapshot.moved_next]
    split <;> simp
  | _ => simp [WaveFits]

/-! ### The number of calls -/

/-- The calls on the books, with those of a wave that has just come back. -/
structure CallBooks (maxLlmCalls : ℤ) (c : Snapshot) : Prop where
  placed : Placed c.state c.next
  settled : Settled c
  cap : c.state.budget.maxLlmCalls = maxLlmCalls
  made : c.state.budget.llmCallsMade + c.state.unreconciled.length ≤ max 0 maxLlmCalls
  wave : ∀ sends, c.next = .editors sends →
    (sends.length : ℤ) ≤ max 1 c.state.budget.callsLeft

omit [UnicodeData] in
/-- One call that is recorded as soon as it returns, behind a check of the budget. -/
theorem CallBooks.recorded {maxLlmCalls : ℤ} (hc : CallBooks maxLlmCalls c) {now cost : ℚ}
    {track : Bool} (hnone : c.state.unreconciled = [])
    (hleft : c.state.budget.isExhausted now = false)
    (hbudget : c'.state.budget = c.state.budget.recordCall cost 1 track)
    (hdeltas : SameDeltas c.state c'.state) :
    c'.state.budget.llmCallsMade + c'.state.unreconciled.length ≤ max 0 maxLlmCalls := by
  have hmade := hc.made
  have hcap := hc.cap
  have hcalls := ((BudgetState.not_isExhausted_iff _ _).mp hleft).2.1
  rw [hbudget, hdeltas.unreconciled_eq, hnone, BudgetState.recordCall_llmCallsMade]
  rw [hnone] at hmade
  simp only [List.length_nil] at hmade ⊢
  omega

theorem CallBooks.superstep {maxLlmCalls : ℤ} (hc : CallBooks maxLlmCalls c)
    (hfits : WaveFits c i c') (h : Superstep c i c') : CallBooks maxLlmCalls c' := by
  have hlimits := limits_superstep hc.placed h
  have hraised : ∀ exc, c.next ≠ .raised exc := fun exc => next_ne_raised h
  have hmade := hc.made
  have hcap := hc.cap
  refine ⟨placed_superstep hc.placed h, settled_superstep hc.placed hc.settled h,
    hlimits.2.1.trans hc.cap, ?_, (fits_iff h).mpr hfits⟩
  cases charge_of_superstep hc.placed h with
  | none hbudget hdeltas =>
    rw [hbudget, hdeltas.unreconciled_eq]
    exact hmade
  | extraction st run hleft _ hbudget hdeltas hnode =>
    have hnone : c.state.unreconciled = [] :=
      hc.settled.unreconciled_eq_nil (by simp [hnode]) hraised
    exact hc.recorded hnone hleft hbudget hdeltas
  | analysis _ _ _ _ hleft _ hbudget hdeltas hnode =>
    have hnone : c.state.unreconciled = [] :=
      hc.settled.unreconciled_eq_nil (by simp [hnode]) hraised
    exact hc.recorded hnone hleft hbudget hdeltas
  | wave hsends harrivals hbudget hdeltas hconsumed =>
    -- the wave fits, and some call was left when it was dispatched
    obtain ⟨-, -, -, now, hleft⟩ := hc.placed.wave _ hsends
    have hcalls := ((BudgetState.not_isExhausted_iff _ _).mp hleft).2.1
    have hsize := hc.wave _ hsends
    have hcosts := length_costs_le harrivals
    rw [unreconciled_of_wave hc.settled hsends hdeltas hconsumed, hbudget]
    unfold BudgetState.callsLeft at hsize
    omega
  | reconciliation _ hbudget hdeltas hconsumed =>
    rw [hbudget, unreconciled_eq_nil hconsumed, BudgetState.recordAll_llmCallsMade]
    simp only [List.length_nil]
    omega

end Steps

section Runs

variable [UnicodeData] {config : MigrationRunConfig} {limits : BudgetLimits} {maxRetryRounds : ℤ}
  {startedAt : ℚ} {inputs : List Input} {c : Snapshot}

omit [UnicodeData] in
theorem callBooks_initial :
    CallBooks limits.maxLlmCalls (initial config limits maxRetryRounds startedAt) := by
  refine ⟨placed_initial _ _ _ _, fun _ _ => rfl, rfl, ?_, by simp [initial]⟩
  simp [initial, GraphState.unreconciled]

/-- The ceiling on calls is kept, up to one call, exactly in the runs whose gates only meet
states in which the calls fit. -/
theorem call_cap_iff :
    graph.RunWhere (WithinCallCap limits.maxLlmCalls)
        (initial config limits maxRetryRounds startedAt) inputs c ↔
      graph.RunWhere WaveFits (initial config limits maxRetryRounds startedAt) inputs c := by
  constructor
  · intro hwithin
    let Capped : Snapshot → Prop := fun c =>
      Placed c.state c.next ∧ c.state.budget.maxLlmCalls = limits.maxLlmCalls
    have hinv : ∀ c i c', Capped c → graph.step c i = some c' →
        WithinCallCap limits.maxLlmCalls c i c' → Capped c' := by
      intro c i c' hc hstep _
      have h := superstep_of_step hstep
      exact ⟨placed_superstep hc.1 h, (limits_superstep hc.1 h).2.1.trans hc.2⟩
    refine hwithin.mono_of_invariant (I := Capped) ⟨placed_initial _ _ _ _, rfl⟩ hinv ?_
    intro c i c' hc hstep hok
    have hcap : c'.state.budget.maxLlmCalls = limits.maxLlmCalls :=
      (hinv c i c' hc hstep hok).2
    rw [← fits_iff (superstep_of_step hstep), BudgetState.callsLeft, hcap]
    exact hok.2
  · intro hfits
    have hinv : ∀ c i c', CallBooks limits.maxLlmCalls c → graph.step c i = some c' →
        WaveFits c i c' → CallBooks limits.maxLlmCalls c' :=
      fun c i c' hc hstep hok => hc.superstep hok (superstep_of_step hstep)
    refine hfits.mono_of_invariant (I := CallBooks limits.maxLlmCalls) callBooks_initial hinv ?_
    intro c i c' hc hstep hok
    have hc' := hinv c i c' hc hstep hok
    constructor
    · have hmade := hc'.made
      omega
    · intro sends hsends
      have hsize := hc'.wave sends hsends
      rwa [BudgetState.callsLeft, hc'.cap] at hsize

end Runs

section Overrun

attribute [local instance] asciiTables

/-- Three independent services under a ceiling of two calls, the first of which extraction
uses up. -/
def overrunRun : List Input :=
  planServices [serviceFile "OrderService" [], serviceFile "StockService" [],
    serviceFile "PriceService" []] ++
    [.editors [(0, writesAt 0 "order.py"), (1, writesAt 0 "stock.py"), (2, writesAt 0 "price.py")],
      .budgetReconcile (gateAt 0)]

theorem overrunRun_exceeds_cap :
    ∃ c : Snapshot, graph.Run (initial demoConfig ⟨5, 2, 3600⟩ 5 0) overrunRun c ∧
      max 0 2 + 1 < c.state.budget.llmCallsMade := by
  have hreplay : (replay (initial demoConfig ⟨5, 2, 3600⟩ 5 0) overrunRun).any
      (fun c => decide (max 0 2 + 1 < c.state.budget.llmCallsMade)) = true := by decide +kernel
  obtain ⟨c, hrun, hmade⟩ := exists_run_of_replay hreplay
  exact ⟨c, hrun, of_decide_eq_true hmade⟩

end Overrun

end StackMigrate
