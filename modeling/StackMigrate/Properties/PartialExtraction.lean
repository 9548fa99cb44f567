import StackMigrate.Graph.Loop
import StackMigrate.Graph.Records
import StackMigrate.Graph.Replay
import StackMigrate.Nodes.Extraction

/-!
# Comprehension cut short

The graph is not told that files were skipped for lack of money. It notices all the same:
the loop stops when it has spent what was left, so the budget it hands on is exhausted in
dollars, and every way behind synthesis leads around the editors.
-/

namespace StackMigrate

/-- The events a run leaves once it migrates: a wave, an executed suite, the publisher. -/
def Event.migrates : Event → Bool
  | wave _ | sandboxTest (.ran _ _) | prPublish _ => true
  | _ => false

/-- The places a run without money can be in. -/
def Next.isUnfunded : Next → Bool
  | .node .synthesis | .node .sandboxTest | .node .errorAnalysis | .node .budgetAbort
  | .finished | .raised _ => true
  | _ => false

/-- The dollars are used up and nothing has been migrated. -/
structure Unfunded (c : Snapshot) : Prop where
  place : c.next.isUnfunded = true
  spent : c.next.isRaised = false → c.state.budget.maxUsd ≤ c.state.budget.spentUsd
  results : c.state.editorResults = []
  suite : c.state.fullSuiteResult = none
  draft : c.state.prDraft = none
  quiet : ∀ e ∈ c.trace, e.migrates = false

theorem effectiveDiffs_nil (tasks : List MigrationTask) : effectiveDiffs [] tasks = [] := rfl

/-- Without money no edge leads to the editors. -/
theorem isUnfunded_of_dispatched {noReadyTasks next : Next} {gate : GateReadings}
    {s : GraphState} (hedge : noReadyTasks = .node .sandboxTest ∨ noReadyTasks = .finished)
    (hspent : s.budget.maxUsd ≤ s.budget.spentUsd) (h : Dispatched noReadyTasks gate s next) :
    next.isUnfunded = true := by
  have hexhausted := (s.budget.isExhausted_iff gate.first).mpr (Or.inl hspent)
  cases h with
  | nothingReady => rcases hedge with rfl | rfl <;> rfl
  | exhausted => rfl
  | crossed _ hfirst | wave _ hfirst =>
    rw [hexhausted] at hfirst
    cases hfirst

section Steps

variable [UnicodeData] {c c' : Snapshot} {i : Input}

omit [UnicodeData] in
/-- The step leaves the money, the results and the draft alone. -/
theorem Unfunded.move {s : GraphState} {event : Event} {next : Next} (hc : Unfunded c)
    (hspent : s.budget.maxUsd ≤ s.budget.spentUsd) (hresults : s.editorResults = [])
    (hsuite : s.fullSuiteResult = none) (hdraft : s.prDraft = none)
    (hevent : event.migrates = false) (hnext : next.isUnfunded = true) :
    Unfunded (c.moved i event s next) :=
  ⟨hnext, fun _ => hspent, hresults, hsuite, hdraft, by simpa [hevent] using hc.quiet⟩

theorem Unfunded.step (hc : Unfunded c) (hstep : step c i = some c') : Unfunded c' := by
  have h := superstep_of_step hstep
  have hspent := hc.spent (isRaised_of_superstep h)
  have hplace := hc.place
  cases h with
  | raised hraising =>
    refine ⟨rfl, fun h => ?_, hc.results, hc.suite, hc.draft, ?_⟩
    · cases h
    · have hquiet := hc.quiet
      cases hraising with
      | comprehension hnext | wave hnext | budgetReconcile hnext =>
        rw [hnext] at hplace
        cases hplace
      | synthesis | errorAnalysis => simpa [Event.migrates] using hquiet
      | sandboxTest hnext =>
        obtain ⟨answer, -, heq⟩ := step_sandboxTest hnext hstep
        have hrecord : (sandboxTestNode c.state answer).record = .sandboxTest .noDiffs := by
          simp [sandboxTestNode, hc.results, effectiveDiffs_nil]
        rw [heq, Snapshot.trace_advance, hrecord]
        simpa [Event.migrates] using hquiet
  | comprehension hnext | wave hnext | budgetReconcile hnext | aggregate hnext
  | requestApproval hnext | approvalGate hnext | resume hnext | prPublish hnext =>
    rw [hnext] at hplace
    cases hplace
  | synthesis hnext hpass hroute =>
    have hspent' : ∀ u, SynthesisPass c.state u →
        (c.state.apply u).budget.maxUsd ≤ (c.state.apply u).budget.spentUsd := by
      intro u hpass
      cases hpass <;> simpa using hspent
    have hnext' := isUnfunded_of_dispatched (Or.inl rfl) (hspent' _ hpass)
      (dispatched_of_dispatch hroute)
    cases hpass <;>
      exact hc.move (by simpa using hspent) (by simpa using hc.results) (by simpa using hc.suite)
        (by simpa using hc.draft) rfl hnext'
  | sandboxTest hnext hpass =>
    have hnone : effectiveDiffs c.state.editorResults c.state.tasks = [] := by
      rw [hc.results, effectiveDiffs_nil]
    cases hpass with
    | noDiffs log =>
      refine hc.move (by simpa using hspent) (by simpa using hc.results) (by simpa using hc.suite)
        (by simpa using hc.draft) rfl ?_
      split <;> simp_all [routeAfterSandbox, hc.suite, Next.isUnfunded]
    | unsafePath _ hdiffs | ran _ hdiffs => exact absurd hnone hdiffs
  | errorAnalysis hnext hpass hroute =>
    cases hpass with
    | answered _ _ _ _ _ hsuite => exact absurd hc.suite hsuite
    | nothingToBlame | exhausted | callFailed =>
      exact hc.move (by simpa using hspent) (by simpa using hc.results) (by simpa using hc.suite)
        (by simpa using hc.draft) rfl
        (isUnfunded_of_dispatched (Or.inr rfl) (by simpa using hspent)
          (dispatched_of_dispatch hroute))
  | budgetAbort hnext hu =>
    cases hu
    exact hc.move (by simpa using hspent) (by simpa using hc.results) (by simpa using hc.suite)
      (by simpa using hc.draft) rfl rfl

end Steps

section Runs

variable [UnicodeData] {config : MigrationRunConfig} {limits : BudgetLimits} {maxRetryRounds : ℤ}
  {startedAt : ℚ} {inputs : List Input} {c : Snapshot}

/-- A comprehension that was cut short hands on a budget without dollars. -/
theorem unfunded_of_comprehension {c' : Snapshot} {i : Input} {calls : List ExtractionCall}
    (hstep : step (initial config limits maxRetryRounds startedAt) i = some c')
    (hstopped : .comprehension calls true ∈ c'.trace) : Unfunded c' := by
  have h := superstep_of_step hstep
  obtain ⟨answer, rfl, heq⟩ := step_comprehension rfl hstep
  have hquiet : ∀ e ∈ c'.trace, e.migrates = false := by
    obtain ⟨calls, stopped, hrecord⟩ :=
      record_comprehensionNode (initial config limits maxRetryRounds startedAt).state answer
    rw [heq, Snapshot.trace_advance, hrecord]
    simp [initial, Event.migrates]
  cases h with
  | raised => exact ⟨rfl, by simp [Next.isRaised], rfl, rfl, rfl, hquiet⟩
  | comprehension hnext hpass =>
    cases hpass with
    | exhausted => simp [initial] at hstopped
    | ran st run hleft hrun =>
      obtain ⟨notes, hloop, -, -, htotal⟩ := runComprehension_ok hrun
      have hearly : st.stoppedEarly = true := by
        simp only [Snapshot.moved_trace, initial, List.mem_singleton,
          Event.comprehension.injEq] at hstopped
        exact hstopped.2.symm
      have hfinal : (extractFiles _ _ _ _).1 = st := congrArg Prod.fst hloop
      have hspent := remaining_le_of_stoppedEarly rfl (hfinal ▸ hearly)
      rw [hfinal, ← htotal] at hspent
      have hleftover : limits.maxUsd - 0 ≤ run.totalCost := le_trans (le_max_right _ _) hspent
      refine ⟨?_, fun _ => ?_, rfl, rfl, rfl, hquiet⟩
      · have hroute : routeAfterComprehension ((initial config limits maxRetryRounds
            startedAt).state.apply
              { comprehension := some run.result
                phase := some (if run.result.units.isEmpty then .failed else .synthesisPlanning)
                budget := some ((initial config limits maxRetryRounds
                  startedAt).state.budget.recordCall run.totalCost 1 false)
                errorLog := run.errorLog }) = .node .synthesis := by
          cases run.result.units.isEmpty <;> simp [routeAfterComprehension]
        rw [Snapshot.moved_next, hroute]
        rfl
      · have hstart : limits.maxUsd ≤ 0 + run.totalCost := by linarith
        exact hstart

/-- Only the comprehension node leaves its event. -/
theorem comprehension_notMem_step {c' : Snapshot} {i : Input}
    (hnext : c.next ≠ .node .comprehension) (h : Superstep c i c') {calls : List ExtractionCall}
    {stopped : Bool} (hmem : .comprehension calls stopped ∈ c'.trace) :
    .comprehension calls stopped ∈ c.trace := by
  cases h with
  | comprehension hcomp => exact absurd hcomp hnext
  | raised hraising =>
    cases hraising with
    | comprehension hcomp => exact absurd hcomp hnext
    | _ => simpa using hmem
  | sandboxTest _ hpass | errorAnalysis _ hpass => cases hpass <;> simpa using hmem
  | _ => simpa using hmem

theorem unfunded_of_run
    (hrun : graph.Run (initial config limits maxRetryRounds startedAt) inputs c)
    {calls : List ExtractionCall} (hstopped : .comprehension calls true ∈ c.trace) :
    Unfunded c := by
  induction hrun with
  | refl => simp [initial] at hstopped
  | @snoc inputs c i c' hrun hstep _ ih =>
    rcases start_or_comprehended hrun with ⟨-, rfl⟩ | ⟨-, hnext⟩
    · exact unfunded_of_comprehension hstep hstopped
    · have hearlier := comprehension_notMem_step hnext (superstep_of_step hstep) hstopped
      exact (ih hearlier).step hstep

/-- A module that was comprehended only in part for lack of money is never migrated. -/
theorem partial_extraction_never_migrates
    (hrun : graph.Run (initial config limits maxRetryRounds startedAt) inputs c)
    {calls : List ExtractionCall} (hstopped : .comprehension calls true ∈ c.trace) :
    (∀ sends, c.next ≠ .editors sends) ∧ (∀ branches, .wave branches ∉ c.trace) ∧
      (∀ applied result, .sandboxTest (.ran applied result) ∉ c.trace) ∧
      c.state.prDraft = none ∧ publishCalls c.trace = [] := by
  have hc := unfunded_of_run hrun hstopped
  refine ⟨?_, ?_, ?_, hc.draft, ?_⟩
  · intro sends hnext
    have hplace := hc.place
    rw [hnext] at hplace
    cases hplace
  · intro branches hmem
    simpa [Event.migrates] using hc.quiet _ hmem
  · intro applied result hmem
    simpa [Event.migrates] using hc.quiet _ hmem
  · refine List.filterMap_eq_nil_iff.mpr fun e he => ?_
    have hquiet := hc.quiet e he
    cases e with
    | prPublish => cases hquiet
    | _ => rfl

end Runs

section Cut

attribute [local instance] asciiTables

/-- Two service classes and the money for one of them. -/
def cutRun : List Input :=
  planServices [serviceFile "OrderService" [], serviceFile "StockService" []]

/-- The extraction stopped before its last file. -/
def wasCut (c : Snapshot) : Bool :=
  match c.trace with
  | [.synthesis, .comprehension _ stoppedEarly] => stoppedEarly
  | _ => false

theorem partial_extraction_never_migrates_cutRun :
    ∃ c : Snapshot, wasCut c = true ∧ c.state.tasks ≠ [] ∧
      (∀ sends, c.next ≠ .editors sends) ∧ publishCalls c.trace = [] := by
  have hreplay : (replay (initial demoConfig ⟨1 / 100, 500, 3600⟩ 5 0) cutRun).any
      (fun c => wasCut c && !c.state.tasks.isEmpty) = true := by decide +kernel
  obtain ⟨c, hrun, hcut⟩ := exists_run_of_replay hreplay
  rw [Bool.and_eq_true] at hcut
  obtain ⟨hcut, htasks⟩ := hcut
  have hstopped : ∃ calls, .comprehension calls true ∈ c.trace := by
    unfold wasCut at hcut
    split at hcut
    · next calls stoppedEarly htrace =>
      subst hcut
      exact ⟨calls, by simp [htrace]⟩
    · cases hcut
  obtain ⟨calls, hstopped⟩ := hstopped
  obtain ⟨hnext, -, -, -, hpublish⟩ := partial_extraction_never_migrates hrun hstopped
  exact ⟨c, hcut, by simpa using htasks, hnext, hpublish⟩

end Cut

end StackMigrate
