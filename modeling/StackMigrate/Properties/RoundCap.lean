import StackMigrate.Graph.Records
import StackMigrate.Graph.Loop
import StackMigrate.Properties.TerminalPhase

/-!
# The cap on the rounds

The cap sits in `error_analysis`: in the last round every blamed task goes to a human. What
was not ready before that round is not ready behind it, so no wave and no visit follows.
-/

namespace StackMigrate

/-- The executions of the sandbox runner. -/
def suiteRuns (trace : List Event) : ℕ := trace.countP Event.runsSuite

def Event.asksAnalyzer : Event → Bool
  | errorAnalysis call => call.isCall
  | _ => false

def analyzerCalls (trace : List Event) : ℕ := trace.countP Event.asksAnalyzer

/-- The places from which the run comes to another visit. -/
def Next.leadsToVisit : Next → Bool
  | .node .comprehension | .node .synthesis | .node .budgetReconcile | .node .sandboxTest
  | .editors _ => true
  | _ => false

/-- The counts of a run that is capped at `rounds`. A round begins with a visit and ends
behind its analysis. -/
structure RoundBooks (rounds : ℤ) (c : Snapshot) : Prop where
  cap : effectiveMaxRounds c.state = rounds
  suites : (suiteRuns c.trace : ℤ) ≤ rounds
  analyses : (analyzerCalls c.trace : ℤ) ≤ rounds
  visiting : c.next.leadsToVisit = true → c.state.retryRound < rounds ∧
    (suiteRuns c.trace : ℤ) ≤ c.state.retryRound ∧
    (analyzerCalls c.trace : ℤ) ≤ c.state.retryRound
  analysing : c.next = .node .errorAnalysis → c.state.retryRound < rounds ∧
    (suiteRuns c.trace : ℤ) ≤ c.state.retryRound + 1 ∧
    (analyzerCalls c.trace : ℤ) ≤ c.state.retryRound

/-! ### The last round -/

/-- An analysis that reaches the cap leaves nothing to dispatch. -/
theorem ready_at_cap {s : GraphState} {answer : AnalysisInput} {event : Event} {u : Update}
    (hnd : (s.tasks.map MigrationTask.id).Nodup) (hidle : getReadyTasks s.tasks = [])
    (hcap : roundCapHit s = true) (hpass : AnalysisPass s answer event u) :
    getReadyTasks (s.apply u).tasks = [] := by
  have hclosed : ∀ t ∈ u.tasks.getD [], t.status = .needsHuman := by
    intro t ht
    cases hpass with
    | nothingToBlame => cases ht
    | exhausted | callFailed => exact status_escalate ht
    | answered log result =>
      simp only at ht
      split_ifs at ht
      · cases ht
      · obtain ⟨t₀, -, a, -, -, rfl⟩ := (mem_blamedTasks hnd).mp ht
        simp [hcap]
  rw [tasks_apply_replaced hnd (tasks_analysis_moved hnd hpass)]
  exact ready_closed hnd hidle hclosed

theorem roundCapHit_iff {s : GraphState} {rounds : ℤ} (hcap : effectiveMaxRounds s = rounds) :
    roundCapHit s = true ↔ rounds ≤ s.retryRound + 1 := by
  simp [roundCapHit, hcap]

theorem retryRound_analysis {s : GraphState} {answer : AnalysisInput} {event : Event}
    {u : Update} (hpass : AnalysisPass s answer event u) :
    (s.apply u).retryRound = s.retryRound + 1 := by
  cases hpass <;> rfl

/-! ### One step -/

@[simp] theorem suiteRuns_cons (e : Event) (trace : List Event) :
    suiteRuns (e :: trace) = suiteRuns trace + if e.runsSuite then 1 else 0 :=
  List.countP_cons

@[simp] theorem analyzerCalls_cons (e : Event) (trace : List Event) :
    analyzerCalls (e :: trace) = analyzerCalls trace + if e.asksAnalyzer then 1 else 0 :=
  List.countP_cons

theorem effectiveMaxRounds_congr {s s' : GraphState} (h : s'.maxRetryRounds = s.maxRetryRounds) :
    effectiveMaxRounds s' = effectiveMaxRounds s := by
  rw [effectiveMaxRounds, effectiveMaxRounds, h]

section Steps

variable [UnicodeData] {c c' : Snapshot} {i : Input} {rounds : ℤ}

theorem maxRetryRounds_superstep (hp : Placed c.state c.next) (h : Superstep c i c') :
    c'.state.maxRetryRounds = c.state.maxRetryRounds := by
  cases h with
  | wave _ _ hupdates =>
    obtain ⟨log, hlog⟩ := applyAll_wave hp.nodup hupdates
    rw [Snapshot.moved_state, hlog]
    rfl
  | _ => rfl

omit [UnicodeData] in
/-- A step within a round that runs no suite and asks nobody. -/
theorem RoundBooks.carry (hc : RoundBooks rounds c) (hvisiting : c.next.leadsToVisit = true)
    {s : GraphState} {event : Event} {next : Next} (hround : s.retryRound = c.state.retryRound)
    (hmax : s.maxRetryRounds = c.state.maxRetryRounds) (hsuite : event.runsSuite = false)
    (hasks : event.asksAnalyzer = false) : RoundBooks rounds (c.moved i event s next) := by
  obtain ⟨hlt, hsuites, hanalyses⟩ := hc.visiting hvisiting
  refine ⟨(effectiveMaxRounds_congr hmax).trans hc.cap, ?_, ?_, fun _ => ?_, fun _ => ?_⟩
  all_goals simp [hsuite, hasks, hround]
  all_goals omega

omit [UnicodeData] in
/-- A step out of the rounds. -/
theorem RoundBooks.leave (hc : RoundBooks rounds c) {s : GraphState} {event : Event} {next : Next}
    (hmax : s.maxRetryRounds = c.state.maxRetryRounds)
    (hsuite : event.runsSuite = true → (suiteRuns c.trace : ℤ) < rounds)
    (hasks : event.asksAnalyzer = true → (analyzerCalls c.trace : ℤ) < rounds)
    (hnext : next.leadsToVisit = false) (hanalysis : next ≠ .node .errorAnalysis) :
    RoundBooks rounds (c.moved i event s next) := by
  have hsuites := hc.suites
  have hanalyses := hc.analyses
  refine ⟨(effectiveMaxRounds_congr hmax).trans hc.cap, ?_, ?_, fun h => ?_, fun h => ?_⟩
  · rw [Snapshot.moved_trace, suiteRuns_cons]
    split_ifs with hevent
    · have := hsuite hevent
      push_cast
      omega
    · simpa using hsuites
  · rw [Snapshot.moved_trace, analyzerCalls_cons]
    split_ifs with hevent
    · have := hasks hevent
      push_cast
      omega
    · simpa using hanalyses
  · rw [Snapshot.moved_next, hnext] at h
    cases h
  · exact absurd h hanalysis

omit [UnicodeData] in
/-- The visit of a round. -/
theorem RoundBooks.visit (hc : RoundBooks rounds c) (hnext : c.next = .node .sandboxTest)
    {answer : SandboxInput} {event : Event} {u : Update}
    (hpass : SandboxPass c.state answer event u) :
    RoundBooks rounds (c.moved i event (c.state.apply u)
      (.node (if routeAfterSandbox (c.state.apply u) then .aggregate else .errorAnalysis))) := by
  obtain ⟨hlt, hsuites, hanalyses⟩ := hc.visiting (by rw [hnext]; rfl)
  have hasks : event.asksAnalyzer = false := by cases hpass <;> rfl
  have hround : (c.state.apply u).retryRound = c.state.retryRound := by cases hpass <;> rfl
  have hone : (suiteRuns (event :: c.trace) : ℤ) ≤ suiteRuns c.trace + 1 := by
    rw [suiteRuns_cons]
    split_ifs <;> push_cast <;> omega
  refine ⟨(effectiveMaxRounds_congr rfl).trans hc.cap, ?_, ?_, fun h => ?_, fun _ => ?_⟩
  · rw [Snapshot.moved_trace]
    omega
  · simp only [Snapshot.moved_trace, analyzerCalls_cons, hasks]
    simpa using hc.analyses
  · rw [Snapshot.moved_next] at h
    split at h <;> cases h
  · rw [Snapshot.moved_state, hround, Snapshot.moved_trace, analyzerCalls_cons, hasks]
    simp only [Bool.false_eq_true, if_false, add_zero]
    omega

omit [UnicodeData] in
/-- The analysis at the end of a round. -/
theorem RoundBooks.analysis (hc : RoundBooks rounds c) (hp : Placed c.state c.next)
    (hnext : c.next = .node .errorAnalysis) {answer : AnalysisInput} {gate : GateReadings}
    {event : Event} {u : Update} {next : Next} (hpass : AnalysisPass c.state answer event u)
    (hroute : Dispatched .finished gate (c.state.apply u) next) :
    RoundBooks rounds (c.moved i event (c.state.apply u) next) := by
  obtain ⟨hlt, hsuites, hanalyses⟩ := hc.analysing hnext
  have hquiet : event.runsSuite = false := by cases hpass <;> rfl
  have hround := retryRound_analysis hpass
  have hone : (analyzerCalls (event :: c.trace) : ℤ) ≤ analyzerCalls c.trace + 1 := by
    rw [analyzerCalls_cons]
    split_ifs <;> push_cast <;> omega
  have hsame : suiteRuns (event :: c.trace) = suiteRuns c.trace := by
    simp [suiteRuns_cons, hquiet]
  have hplaces := next_of_dispatched (Or.inr rfl) hroute
  refine ⟨(effectiveMaxRounds_congr rfl).trans hc.cap, ?_, ?_, fun h => ?_, fun h => ?_⟩
  · rw [Snapshot.moved_trace, hsame]
    exact hc.suites
  · rw [Snapshot.moved_trace]
    omega
  · -- another round begins only below the cap
    have hbelow : c.state.retryRound + 1 < rounds := by
      by_contra hcap
      have hready := ready_at_cap hp.nodup (hp.idle (Or.inr hnext))
        ((roundCapHit_iff hc.cap).mpr (not_lt.mp hcap)) hpass
      cases hroute with
      | nothingReady => cases h
      | exhausted hne | crossed hne | wave hne => exact hne hready
    rw [Snapshot.moved_state, Snapshot.moved_trace, hround, hsame]
    omega
  · rw [Snapshot.moved_next] at h
    rcases hplaces with ⟨sends, rfl⟩ | rfl | rfl | rfl <;> cases h

theorem RoundBooks.superstep (hc : RoundBooks rounds c) (hp : Placed c.state c.next)
    (h : Superstep c i c') : RoundBooks rounds c' := by
  have hmax := maxRetryRounds_superstep hp h
  cases h with
  | raised hraising =>
    cases hraising with
    | comprehension hnext | synthesis hnext | wave hnext | budgetReconcile hnext =>
      exact hc.carry (by rw [hnext]; rfl) rfl rfl rfl rfl
    | sandboxTest hnext =>
      obtain ⟨hlt, hsuites, hanalyses⟩ := hc.visiting (by rw [hnext]; rfl)
      exact hc.leave rfl (fun _ => by omega) (by simp [Event.asksAnalyzer]) rfl (by simp)
    | errorAnalysis hnext =>
      obtain ⟨hlt, hsuites, hanalyses⟩ := hc.analysing hnext
      exact hc.leave rfl (by simp [Event.runsSuite]) (fun _ => by omega) rfl (by simp)
  | comprehension hnext hpass =>
    refine hc.carry (by rw [hnext]; rfl) ?_ hmax ?_ ?_ <;> cases hpass <;> rfl
  | synthesis hnext hpass =>
    refine hc.carry (by rw [hnext]; rfl) ?_ hmax rfl rfl
    cases hpass <;> rfl
  | wave hnext _ hupdates =>
    obtain ⟨log, hlog⟩ := applyAll_wave hp.nodup hupdates
    refine hc.carry (by rw [hnext]; rfl) ?_ hmax rfl rfl
    rw [hlog]
    rfl
  | budgetReconcile hnext => exact hc.carry (by rw [hnext]; rfl) rfl hmax rfl rfl
  | sandboxTest hnext hpass => exact hc.visit hnext hpass
  | errorAnalysis hnext hpass hroute =>
    exact hc.analysis hp hnext hpass (dispatched_of_dispatch hroute)
  | aggregate =>
    refine hc.leave hmax (by simp [Event.runsSuite]) (by simp [Event.asksAnalyzer]) ?_ ?_
    all_goals
      unfold routeAfterAggregate
      repeat' split
      all_goals simp [Next.leadsToVisit]
  | requestApproval | approvalGate | prPublish | budgetAbort =>
    exact hc.leave hmax (by simp [Event.runsSuite]) (by simp [Event.asksAnalyzer]) rfl (by simp)
  | resume =>
    refine hc.leave hmax (by simp [Event.runsSuite]) (by simp [Event.asksAnalyzer]) ?_ ?_
    all_goals split <;> simp [Next.leadsToVisit]

theorem retryRound_superstep (hp : Placed c.state c.next) (h : Superstep c i c') :
    c.state.retryRound ≤ c'.state.retryRound := by
  cases h with
  | wave _ _ hupdates =>
    obtain ⟨log, hlog⟩ := applyAll_wave hp.nodup hupdates
    rw [Snapshot.moved_state, hlog]
    exact le_refl c.state.retryRound
  | errorAnalysis _ hpass =>
    rw [Snapshot.moved_state, retryRound_analysis hpass]
    omega
  | comprehension _ hpass | synthesis _ hpass | sandboxTest _ hpass | aggregate _ hpass
  | resume _ hpass | prPublish _ hpass =>
    cases hpass <;> exact le_refl c.state.retryRound
  | budgetAbort _ hu =>
    cases hu
    exact le_refl c.state.retryRound
  | _ => exact le_refl c.state.retryRound

omit [UnicodeData] in
/-- Behind the last round nothing is dispatched. -/
theorem RoundBooks.ne_editors (hc : RoundBooks rounds c) (hcap : rounds ≤ c.state.retryRound)
    (sends : List Send) : c.next ≠ .editors sends := by
  intro hnext
  have hbelow := (hc.visiting (by rw [hnext]; rfl)).1
  omega

theorem dispatches_behind_cap {later : List Input} (hc : RoundBooks rounds c)
    (hp : Placed c.state c.next) (hcap : rounds ≤ c.state.retryRound)
    (hlater : graph.Run c later c') :
    (∀ sends, c'.next ≠ .editors sends) ∧
      ∀ id, dispatches c'.trace id = dispatches c.trace id := by
  have hall : (RoundBooks rounds c' ∧ Placed c'.state c'.next ∧ rounds ≤ c'.state.retryRound) ∧
      ∀ id, dispatches c'.trace id = dispatches c.trace id := by
    refine hlater.invariant (I := fun c' => (RoundBooks rounds c' ∧ Placed c'.state c'.next ∧
      rounds ≤ c'.state.retryRound) ∧ ∀ id, dispatches c'.trace id = dispatches c.trace id)
      ⟨⟨hc, hp, hcap⟩, fun _ => rfl⟩ ?_
    rintro c₁ i c₂ ⟨⟨hc₁, hp₁, hcap₁⟩, hsame⟩ hstep -
    have h := superstep_of_step hstep
    obtain ⟨e, htrace, hnone⟩ := trace_of_not_editors (hc₁.ne_editors hcap₁) h
    refine ⟨⟨hc₁.superstep hp₁ h, placed_superstep hp₁ h,
      hcap₁.trans (retryRound_superstep hp₁ h)⟩, fun id => ?_⟩
    rw [htrace, dispatches_cons_of_branches hnone, hsame id]
  exact ⟨hall.1.1.ne_editors hall.1.2.2, hall.2⟩

end Steps

section Runs

variable [UnicodeData] {config : MigrationRunConfig} {limits : BudgetLimits} {maxRetryRounds : ℤ}
  {startedAt : ℚ} {inputs : List Input} {c : Snapshot}

theorem roundBooks_of_run {rounds : ℤ} (hpos : 0 < rounds)
    (hcap : effectiveMaxRounds (initial config limits maxRetryRounds startedAt).state = rounds)
    (hrun : graph.Run (initial config limits maxRetryRounds startedAt) inputs c) :
    Placed c.state c.next ∧ RoundBooks rounds c := by
  refine ⟨placed_of_run hrun, hrun.invariant_under (J := RoundBooks rounds) placed_of_run ?_ ?_⟩
  · refine ⟨hcap, ?_, ?_, fun _ => ⟨hpos, ?_, ?_⟩, fun h => by cases h⟩ <;>
      simp [initial, suiteRuns, analyzerCalls, hpos.le]
  · intro c i c' hp hc hstep _
    exact hc.superstep hp (superstep_of_step hstep)

/-- The run keeps to the rounds that were asked for, and to one at least. -/
structure RespectsRounds (maxRetryRounds : ℤ) (c : Snapshot) : Prop where
  suites : (suiteRuns c.trace : ℤ) ≤ max 1 maxRetryRounds
  analyses : (analyzerCalls c.trace : ℤ) ≤ max 1 maxRetryRounds
  dispatches : max 1 maxRetryRounds ≤ c.state.retryRound → ∀ later c', graph.Run c later c' →
    (∀ sends, c'.next ≠ .editors sends) ∧
      ∀ id, dispatches c'.trace id = StackMigrate.dispatches c.trace id

theorem respectsRounds_of_pos (hpos : 0 < maxRetryRounds)
    (hrun : graph.Run (initial config limits maxRetryRounds startedAt) inputs c) :
    RespectsRounds maxRetryRounds c := by
  have hcap : effectiveMaxRounds (initial config limits maxRetryRounds startedAt).state =
      maxRetryRounds := by
    simp only [effectiveMaxRounds, initial]
    exact if_pos hpos.ne'
  obtain ⟨hp, hc⟩ := roundBooks_of_run hpos hcap hrun
  have hmax : max 1 maxRetryRounds = maxRetryRounds := max_eq_right hpos
  refine ⟨hmax.symm ▸ hc.suites, hmax.symm ▸ hc.analyses, ?_⟩
  rw [hmax]
  intro hround later c' hlater
  exact dispatches_behind_cap hc hp hround hlater

end Runs

section Zero

attribute [local instance] asciiTables

/-- One service class, and a suite that passes in its second round. -/
def secondRoundRun : List Input :=
  planServices [serviceFile "OrderService" []] ++
    [.editors [(0, writesAt 0 "app/services/order_service.py")], .budgetReconcile (gateAt 0),
      suite .failed,
      .errorAnalysis ⟨0, .responded (some
        { analyses := [⟨"task::app_services_order_service_py", true⟩] }) (1 / 100)⟩ (gateAt 0),
      .editors [(0, writesAt 0 "app/services/order_service.py")], .budgetReconcile (gateAt 0),
      suite .passed]

/-- A run that is to have no rounds has two. -/
theorem two_suites_without_rounds :
    ∃ c : Snapshot, graph.Run (initial demoConfig demoLimits 0 0) secondRoundRun c ∧
      suiteRuns c.trace = 2 := by
  have hreplay : (replay (initial demoConfig demoLimits 0 0) secondRoundRun).any
      (fun c => decide (suiteRuns c.trace = 2)) = true := by decide +kernel
  obtain ⟨c, hrun, htwo⟩ := exists_run_of_replay hreplay
  exact ⟨c, hrun, of_decide_eq_true htwo⟩

end Zero

/-- The rounds that were asked for are respected in every run exactly if they are not zero,
which the graph takes for no answer. -/
theorem requested_rounds_iff {maxRetryRounds : ℤ} (hnonneg : 0 ≤ maxRetryRounds) :
    (∀ [UnicodeData] (config : MigrationRunConfig) (limits : BudgetLimits) (startedAt : ℚ)
        (inputs : List Input) (c : Snapshot),
        graph.Run (initial config limits maxRetryRounds startedAt) inputs c →
          RespectsRounds maxRetryRounds c) ↔ maxRetryRounds ≠ 0 := by
  constructor
  · rintro hall rfl
    let := asciiTables
    obtain ⟨c, hrun, htwo⟩ := two_suites_without_rounds
    have hone := (hall _ _ _ _ _ hrun).suites
    rw [htwo] at hone
    norm_num at hone
  · intro hne _ config limits startedAt inputs c hrun
    exact respectsRounds_of_pos (lt_of_le_of_ne hnonneg hne.symm) hrun

section Rounds

attribute [local instance] asciiTables

theorem requested_rounds_iff_five :
    ∃ c : Snapshot, graph.Run (initial demoConfig demoLimits 5 0) secondRoundRun c ∧
      suiteRuns c.trace = 2 ∧ RespectsRounds 5 c := by
  have hreplay : (replay (initial demoConfig demoLimits 5 0) secondRoundRun).any
      (fun c => decide (suiteRuns c.trace = 2)) = true := by decide +kernel
  obtain ⟨c, hrun, htwo⟩ := exists_run_of_replay hreplay
  have hfive : (0 : ℤ) ≤ 5 := by decide
  have hrespects := (requested_rounds_iff hfive).mpr (by decide) _ _ _ _ _ hrun
  exact ⟨c, hrun, of_decide_eq_true htwo, hrespects⟩

theorem zero_rounds_are_exceeded :
    ∃ c : Snapshot, graph.Run (initial demoConfig demoLimits 0 0) secondRoundRun c ∧
      ¬ RespectsRounds 0 c := by
  obtain ⟨c, hrun, htwo⟩ := two_suites_without_rounds
  refine ⟨c, hrun, fun hrespects => ?_⟩
  have hone := hrespects.suites
  rw [htwo] at hone
  norm_num at hone

end Rounds

end StackMigrate
