import StackMigrate.Graph.Records
import StackMigrate.Properties.TerminalPhase

/-!
# A refused path

`sandbox_test` answers an unsafe path with the phase FAILED. The edge behind it looks at the
last suite instead, which is absent or left over from an earlier round, so the run always
goes on to `error_analysis`, and no phase survives that node.
-/

namespace StackMigrate

/-- The run has reached its end, or an exception came out of it. -/
def Next.isEnd : Next → Bool
  | .finished | .raised _ => true
  | _ => false

/-- Behind every refused path there is no call and no suite, and the phase is FAILED. -/
def HardStop (c : Snapshot) : Prop :=
  ∀ later earlier, c.trace = later ++ .sandboxTest .unsafePath :: earlier →
    (∀ e ∈ later, e.asksModel = false ∧ e.runsSuite = false) ∧ c.state.phase = some .failed

/-- What becomes of a refused path: it is analysed next, or a call has been made behind it,
or the run has been handed to a human. -/
inductive Refused (c : Snapshot) : Prop
  | analysed {earlier} (hnext : c.next = .node .errorAnalysis)
      (htrace : c.trace = .sandboxTest .unsafePath :: earlier)
  | called {later earlier e} (htrace : c.trace = later ++ .sandboxTest .unsafePath :: earlier)
      (he : e ∈ later) (hcall : e.asksModel = true)
  | handed (hnext : c.next = .finished) (hphase : c.state.phase = some .needsHuman)

/-- A run that has ended behind a refused path is no hard stop. -/
theorem Refused.not_hardStop {c : Snapshot} (h : Refused c) (hend : c.next.isEnd = true)
    (hrefused : .sandboxTest .unsafePath ∈ c.trace) : ¬ HardStop c := by
  intro hstop
  cases h with
  | analysed hnext =>
    rw [hnext] at hend
    cases hend
  | called htrace he hcall =>
    have hquiet := (hstop _ _ htrace).1 _ he
    rw [hcall] at hquiet
    cases hquiet.1
  | handed _ hphase =>
    obtain ⟨later, earlier, htrace⟩ := List.append_of_mem hrefused
    have hfailed := (hstop later earlier htrace).2
    rw [hphase] at hfailed
    cases hfailed

/-! ### The analysis behind the visit -/

theorem dispatch_of_nothingReady {noReadyTasks : Next} {gate : GateReadings} {s : GraphState}
    (h : getReadyTasks s.tasks = []) : dispatch noReadyTasks gate s = .ok noReadyTasks := by
  simp [dispatch, routeToEditors, h, Except.map]

/-- The node raises only behind a call. -/
theorem isCall_of_raising {s : GraphState} {answer : AnalysisInput} {exc : PyException}
    (h : (errorAnalysisNode s answer).update = .error exc) :
    (errorAnalysisNode s answer).record.asksModel = true := by
  unfold errorAnalysisNode at h ⊢
  dsimp only at h ⊢
  split_ifs at h ⊢
  split at h
  · cases h
  · rfl
  · cases h

section Steps

variable [UnicodeData] {c c' : Snapshot} {i : Input}

/-- An analysis that asks nobody hands the run to a human. -/
theorem asked_or_handed (hp : Placed c.state c.next) (hnext : c.next = .node .errorAnalysis)
    (hstep : step c i = some c') :
    ∃ e, c'.trace = e :: c.trace ∧
      (e.asksModel = true ∨ (c'.next = .finished ∧ c'.state.phase = some .needsHuman)) := by
  obtain ⟨answer, gate, rfl, rfl⟩ := step_errorAnalysis hnext hstep
  refine ⟨_, Snapshot.trace_advance _ _ _ _, ?_⟩
  have hidle := hp.idle (Or.inr hnext)
  -- what a pass without a call leaves behind
  have hquiet : ∀ u, (errorAnalysisNode c.state answer).update = .ok u →
      (errorAnalysisNode c.state answer).record.asksModel = true ∨
        ((c.state.apply u).phase = some .needsHuman ∧
          dispatch .finished gate (c.state.apply u) = .ok .finished) := by
    intro u hu
    have hpass := errorAnalysisNode_pass hu
    have hphase := phase_of_analysis hp.nodup hidle hpass
    generalize (errorAnalysisNode c.state answer).record = event at hpass
    cases hpass with
    | callFailed | answered => exact Or.inl rfl
    | nothingToBlame | exhausted =>
      rcases hphase with ⟨hphase, hready, -⟩ | ⟨hphase, -⟩
      · exact Or.inr ⟨hphase, dispatch_of_nothingReady hready⟩
      · simp at hphase
  rcases Snapshot.advance_cases (c := c) (i := .errorAnalysis answer gate)
    (errorAnalysisNode c.state answer) (dispatch .finished gate) with
    ⟨exc, hexc, -⟩ | ⟨u, next, hu, hedge, heq⟩
  · rcases hexc with hraised | ⟨u, hu, hedge⟩
    · exact Or.inl (isCall_of_raising hraised)
    · rcases hquiet u hu with hcall | ⟨-, hfinished⟩
      · exact Or.inl hcall
      · rw [hfinished] at hedge
        cases hedge
  · rcases hquiet u hu with hcall | ⟨hphase, hfinished⟩
    · exact Or.inl hcall
    · rw [hfinished] at hedge
      cases hedge
      exact Or.inr ⟨by rw [heq]; rfl, by rw [heq]; exact hphase⟩

omit [UnicodeData] in
theorem routeAfterSandbox_apply {s : GraphState} {u : Update} (h : u.fullSuiteResult = none) :
    routeAfterSandbox (s.apply u) = routeAfterSandbox s := by
  simp [routeAfterSandbox, h]

omit [UnicodeData] in
theorem update_of_refused {s : GraphState} {answer : SandboxInput}
    (h : (sandboxTestNode s answer).record = .sandboxTest .unsafePath) :
    ∃ u, (sandboxTestNode s answer).update = .ok u ∧ u.fullSuiteResult = none := by
  unfold sandboxTestNode at h ⊢
  dsimp only at h ⊢
  split_ifs at h ⊢
  · cases h
  · split at h
    · exact ⟨_, rfl, rfl⟩
    · cases h
    · split at h
      · cases h
      · split at h <;> cases h

/-- A visit that refuses a path is followed by the analysis, whatever the last suite said. -/
theorem refused_of_visit (hs : Stage c.state c.trace c.next) (hnext : c.next = .node .sandboxTest)
    (hstep : step c i = some c') (hvisit : c'.trace = .sandboxTest .unsafePath :: c.trace) :
    Refused c' := by
  obtain ⟨answer, rfl, rfl⟩ := step_sandboxTest hnext hstep
  rw [Snapshot.trace_advance, List.cons.injEq] at hvisit
  obtain ⟨u, hu, hsuite⟩ := update_of_refused hvisit.1
  have hfailing : routeAfterSandbox c.state = false := by
    rw [hnext] at hs
    exact hs.failing
  rw [Snapshot.advance_ok hu rfl, hvisit.1]
  refine .analysed ?_ rfl
  simp [routeAfterSandbox_apply hsuite, hfailing]

theorem Refused.step (hp : Placed c.state c.next) (hc : Refused c) (hstep : step c i = some c') :
    Refused c' := by
  cases hc with
  | analysed hnext htrace =>
    obtain ⟨e, hmore, hcall | ⟨hnext', hphase⟩⟩ := asked_or_handed hp hnext hstep
    · have hsplit : c'.trace = [e] ++ .sandboxTest .unsafePath :: _ :=
        hmore.trans (congrArg (e :: ·) htrace)
      exact .called hsplit (List.mem_singleton_self e) hcall
    · exact .handed hnext' hphase
  | @called later earlier e htrace he hcall =>
    obtain ⟨event, hmore⟩ := trace_of_superstep (superstep_of_step hstep)
    have hsplit : c'.trace = (event :: later) ++ .sandboxTest .unsafePath :: earlier :=
      hmore.trans (htrace ▸ rfl)
    exact .called hsplit (List.mem_cons_of_mem _ he) hcall
  | handed hnext => exact absurd hnext (next_ne_finished (superstep_of_step hstep))

omit [UnicodeData] in
/-- Only the sandbox leaves visits. -/
theorem next_of_raising_visit {visit : SandboxVisit} {exc : PyException}
    (h : Raising c i (.sandboxTest visit) exc) : c.next = .node .sandboxTest := by
  cases h with
  | sandboxTest hnext => exact hnext

theorem next_of_visit (h : Superstep c i c') {visit : SandboxVisit}
    (hvisit : c'.trace = .sandboxTest visit :: c.trace) : c.next = .node .sandboxTest := by
  cases h with
  | raised hraising =>
    rw [Snapshot.moved_trace, List.cons.injEq] at hvisit
    exact next_of_raising_visit (hvisit.1 ▸ hraising)
  | sandboxTest hnext => exact hnext
  | comprehension _ hpass | errorAnalysis _ hpass => cases hpass <;> simp at hvisit
  | _ => simp at hvisit

theorem refused_superstep (hp : Placed c.state c.next) (hs : Stage c.state c.trace c.next)
    (hc : .sandboxTest .unsafePath ∈ c.trace → Refused c) (hstep : step c i = some c')
    (hrefused : .sandboxTest .unsafePath ∈ c'.trace) : Refused c' := by
  have h := superstep_of_step hstep
  obtain ⟨e, htrace⟩ := trace_of_superstep h
  rw [htrace, List.mem_cons] at hrefused
  rcases hrefused with rfl | hearlier
  · exact refused_of_visit hs (next_of_visit h htrace) hstep htrace
  · exact (hc hearlier).step hp hstep

end Steps

section Runs

variable [UnicodeData] {config : MigrationRunConfig} {limits : BudgetLimits} {maxRetryRounds : ℤ}
  {startedAt : ℚ} {inputs : List Input} {c : Snapshot}

theorem refused_of_run
    (hrun : graph.Run (initial config limits maxRetryRounds startedAt) inputs c)
    (hrefused : .sandboxTest .unsafePath ∈ c.trace) : Refused c := by
  revert hrefused
  refine hrun.invariant_under (J := fun c => .sandboxTest .unsafePath ∈ c.trace → Refused c)
    (I := fun c => Placed c.state c.next ∧ Stage c.state c.trace c.next)
    (fun h => ⟨placed_of_run h, stage_of_run h⟩) (by simp [initial]) ?_
  rintro c i c' ⟨hp, hs⟩ hc hstep -
  exact refused_superstep hp hs hc hstep

/-- A run that has ended was stopped hard behind every refused path exactly if it never met
one. -/
theorem hard_stop_iff
    (hrun : graph.Run (initial config limits maxRetryRounds startedAt) inputs c)
    (hend : c.next.isEnd = true) : HardStop c ↔ .sandboxTest .unsafePath ∉ c.trace := by
  constructor
  · intro hstop hrefused
    exact (refused_of_run hrun hrefused).not_hardStop hend hrefused hstop
  · intro hnone later earlier htrace
    exact absurd (by simp [htrace]) hnone

end Runs

section Escape

attribute [local instance] asciiTables

/-- One service class, whose editor leaves the workspace with its first file. -/
def escapingRun : List Input :=
  planServices [serviceFile "OrderService" []] ++
    [.editors [(0, writesAt 0 "../order_service.py")], .budgetReconcile (gateAt 0),
      suite .passed, .errorAnalysis ⟨0, .raised ""⟩ (gateAt 0)]

/-- The latest visit refused a path and was analysed. -/
def wasRefused (c : Snapshot) : Bool :=
  match c.trace with
  | .errorAnalysis _ :: .sandboxTest .unsafePath :: _ => true
  | _ => false

theorem hard_stop_iff_escapingRun :
    ∃ c : Snapshot, c.next.isEnd = true ∧ .sandboxTest .unsafePath ∈ c.trace ∧ ¬ HardStop c := by
  have hreplay : (replay (initial demoConfig demoLimits 5 0) escapingRun).any
      (fun c => c.next.isEnd && wasRefused c) = true := by decide +kernel
  obtain ⟨c, hrun, hboth⟩ := exists_run_of_replay hreplay
  rw [Bool.and_eq_true] at hboth
  obtain ⟨hend, hrefused⟩ := hboth
  have hvisit : .sandboxTest .unsafePath ∈ c.trace := by
    unfold wasRefused at hrefused
    split at hrefused
    · next htrace => simp [htrace]
    · cases hrefused
  exact ⟨c, hend, hvisit, fun hstop => (hard_stop_iff hrun hend).mp hstop hvisit⟩

def retryVerdict (isRetryable : Bool) : Input :=
  .errorAnalysis
    ⟨0, .responded (some { analyses := [⟨"task::app_services_order_service_py", isRetryable⟩] })
      (1 / 100)⟩ (gateAt 0)

/-- The suite fails, and the second attempt leaves the workspace. The analyzer is asked about
the suite of the first round and sends the task back to the editors once more. -/
def escapingRetryRun : List Input :=
  planServices [serviceFile "OrderService" []] ++
    [.editors [(0, writesAt 0 "app/services/order_service.py")], .budgetReconcile (gateAt 0),
      suite .failed, retryVerdict true,
      .editors [(0, writesAt 0 "../order_service.py")], .budgetReconcile (gateAt 0),
      suite .passed, retryVerdict true,
      .editors [(0, writesAt 0 "app/services/order_service.py")], .budgetReconcile (gateAt 0),
      suite .passed, retryVerdict false]

/-- The run has analysed, edited and analysed again since it met its first refused path. -/
def wentOnEditing (c : Snapshot) : Bool :=
  match c.trace with
  | .errorAnalysis (.returned _) :: .sandboxTest .unsafePath :: .budgetReconcile :: .wave _ ::
      .errorAnalysis (.returned _) :: .sandboxTest .unsafePath :: _ => true
  | _ => false

theorem refused_path_is_retried :
    ∃ c : Snapshot, graph.Run (initial demoConfig demoLimits 5 0) escapingRetryRun c ∧
      c.next = .finished ∧ c.state.phase = some .needsHuman ∧ wentOnEditing c = true ∧
      ¬ HardStop c := by
  have hreplay : (replay (initial demoConfig demoLimits 5 0) escapingRetryRun).any
      (fun c => c.next.isFinished && decide (c.state.phase = some .needsHuman) &&
        wentOnEditing c) = true := by decide +kernel
  obtain ⟨c, hrun, hend⟩ := exists_run_of_replay hreplay
  simp only [Bool.and_eq_true, decide_eq_true_eq, Next.isFinished_iff] at hend
  obtain ⟨⟨hnext, hphase⟩, hedited⟩ := hend
  refine ⟨c, hrun, hnext, hphase, hedited, ?_⟩
  intro hstop
  unfold wentOnEditing at hedited
  split at hedited
  · next cost branches cost' earlier htrace =>
    have hsplit : c.trace = [.errorAnalysis (.returned cost)] ++ .sandboxTest .unsafePath ::
        (.budgetReconcile :: .wave branches :: .errorAnalysis (.returned cost') ::
          .sandboxTest .unsafePath :: earlier) := htrace
    have hfailed := (hstop _ _ hsplit).2
    rw [hphase] at hfailed
    cases hfailed
  · cases hedited

end Escape

end StackMigrate
