import StackMigrate.Graph.Build
import StackMigrate.Nodes.Passes

/-!
# What a superstep can do

The transition function is taken apart once. A superstep raises and leaves the state
alone, or it merges the update of one node and follows an edge; every invariant of
the graph is proved by cases on `Superstep`.
-/

namespace StackMigrate

/-! ### The end of a superstep -/

namespace Snapshot

variable (c : Snapshot) (i : Input) (event : Event) (s : GraphState) (next : Next)

@[simp] theorem moved_state : (c.moved i event s next).state = s := rfl
@[simp] theorem moved_next : (c.moved i event s next).next = next := rfl
@[simp] theorem moved_trace : (c.moved i event s next).trace = event :: c.trace := rfl
@[simp] theorem moved_clock : (c.moved i event s next).clock = i.latest c.clock := rfl

variable {c i}

/-- The node raised, or its edge did on the merged state, or both came through. -/
theorem advance_cases (r : NodeResult Event) (edge : GraphState → Except PyException Next) :
    (∃ exc, (r.update = .error exc ∨
          ∃ u, r.update = .ok u ∧ edge (c.state.apply u) = .error exc) ∧
        c.advance i r edge = c.moved i r.record c.state (.raised exc)) ∨
      ∃ u next, r.update = .ok u ∧ edge (c.state.apply u) = .ok next ∧
        c.advance i r edge = c.moved i r.record (c.state.apply u) next := by
  unfold advance
  cases hu : r.update with
  | error exc => exact Or.inl ⟨exc, Or.inl rfl, rfl⟩
  | ok u =>
    cases hedge : edge (c.state.apply u) with
    | error exc =>
      refine Or.inl ⟨exc, Or.inr ⟨u, rfl, hedge⟩, ?_⟩
      simp [bind, Except.bind, hedge, move]
    | ok next =>
      refine Or.inr ⟨u, next, rfl, hedge, ?_⟩
      simp [bind, Except.bind, hedge, move, pure, Except.pure]

theorem advance_ok {r : NodeResult Event} {edge : GraphState → Except PyException Next}
    {u : Update} {next : Next} (hu : r.update = .ok u)
    (hedge : edge (c.state.apply u) = .ok next) :
    c.advance i r edge = c.moved i r.record (c.state.apply u) next := by
  simp [advance, hu, hedge, bind, Except.bind, move, pure, Except.pure]

theorem advanceWave_cases (branches : List (Send × BranchInput)) :
    (∃ exc, (runWave branches).1 = .error exc ∧
        c.advanceWave i branches =
          c.moved i (.wave (runWave branches).2) c.state (.raised exc)) ∨
      ∃ updates, (runWave branches).1 = .ok updates ∧
        c.advanceWave i branches =
          c.moved i (.wave (runWave branches).2) (c.state.applyAll updates)
            (.node .budgetReconcile) := by
  cases hu : (runWave branches).1 with
  | error exc =>
    refine Or.inl ⟨exc, rfl, ?_⟩
    simp [advanceWave, hu, bind, Except.bind, move]
  | ok updates =>
    refine Or.inr ⟨updates, rfl, ?_⟩
    simp [advanceWave, hu, bind, Except.bind, move, pure, Except.pure]

end Snapshot

/-! ### Inversion -/

/-- The state after `budget_reconcile`. -/
def GraphState.reconciled (s : GraphState) : GraphState :=
  s.apply
    { budget := some (s.budget.recordAll (s.budgetDeltas.drop s.budgetDeltasConsumed))
      budgetDeltasConsumed := some s.budgetDeltas.length }

/-- The supersteps that raise, with the record they leave. -/
inductive Raising (c : Snapshot) : Input → Event → PyException → Prop
  | comprehension {answer calls stoppedEarly exc} (hnext : c.next = .node .comprehension) :
      Raising c (.comprehension answer) (.comprehension calls stoppedEarly) exc
  | synthesis {gate exc} (hnext : c.next = .node .synthesis) :
      Raising c (.synthesis gate) .synthesis exc
  | wave {sends arrivals exc} (hnext : c.next = .editors sends)
      (harrivals : (arrivals.map Prod.fst).Perm (List.range sends.length))
      (hcrashed : (runWave (arrivalOrder sends arrivals)).1 = .error exc) :
      Raising c (.editors arrivals) (.wave (runWave (arrivalOrder sends arrivals)).2) exc
  | budgetReconcile {gate exc} (hnext : c.next = .node .budgetReconcile)
      (hroute : dispatch (.node .sandboxTest) gate c.state.reconciled = .error exc) :
      Raising c (.budgetReconcile gate) .budgetReconcile exc
  | sandboxTest {answer visit exc} (hnext : c.next = .node .sandboxTest) :
      Raising c (.sandboxTest answer) (.sandboxTest visit) exc
  | errorAnalysis {answer gate call exc} (hnext : c.next = .node .errorAnalysis) :
      Raising c (.errorAnalysis answer gate) (.errorAnalysis call) exc

inductive Superstep [UnicodeData] (c : Snapshot) : Input → Snapshot → Prop
  | raised {i event exc} (hraising : Raising c i event exc) :
      Superstep c i (c.moved i event c.state (.raised exc))
  | comprehension {answer event u} (hnext : c.next = .node .comprehension)
      (hpass : ComprehensionPass c.state answer event u) :
      Superstep c (.comprehension answer)
        (c.moved (.comprehension answer) event (c.state.apply u)
          (routeAfterComprehension (c.state.apply u)))
  | synthesis {gate u next} (hnext : c.next = .node .synthesis)
      (hpass : SynthesisPass c.state u)
      (hroute : dispatch (.node .sandboxTest) gate (c.state.apply u) = .ok next) :
      Superstep c (.synthesis gate) (c.moved (.synthesis gate) .synthesis (c.state.apply u) next)
  | wave {sends arrivals updates} (hnext : c.next = .editors sends)
      (harrivals : (arrivals.map Prod.fst).Perm (List.range sends.length))
      (hupdates : (runWave (arrivalOrder sends arrivals)).1 = .ok updates) :
      Superstep c (.editors arrivals)
        (c.moved (.editors arrivals) (.wave (runWave (arrivalOrder sends arrivals)).2)
          (c.state.applyAll updates) (.node .budgetReconcile))
  | budgetReconcile {gate next} (hnext : c.next = .node .budgetReconcile)
      (hroute : dispatch (.node .sandboxTest) gate c.state.reconciled = .ok next) :
      Superstep c (.budgetReconcile gate)
        (c.moved (.budgetReconcile gate) .budgetReconcile c.state.reconciled next)
  | sandboxTest {answer event u} (hnext : c.next = .node .sandboxTest)
      (hpass : SandboxPass c.state answer event u) :
      Superstep c (.sandboxTest answer)
        (c.moved (.sandboxTest answer) event (c.state.apply u)
          (.node (if routeAfterSandbox (c.state.apply u) then .aggregate else .errorAnalysis)))
  | errorAnalysis {answer gate event u next} (hnext : c.next = .node .errorAnalysis)
      (hpass : AnalysisPass c.state answer event u)
      (hroute : dispatch .finished gate (c.state.apply u) = .ok next) :
      Superstep c (.errorAnalysis answer gate)
        (c.moved (.errorAnalysis answer gate) event (c.state.apply u) next)
  | aggregate {u} (hnext : c.next = .node .aggregate) (hpass : AggregatePass c.state u) :
      Superstep c .aggregate
        (c.moved .aggregate .aggregate (c.state.apply u) (routeAfterAggregate (c.state.apply u)))
  | requestApproval (hnext : c.next = .node .requestApproval) :
      Superstep c .requestApproval
        (c.moved .requestApproval .requestApproval
          (c.state.apply { phase := some .awaitingApproval }) (.node .approvalGate))
  | approvalGate (hnext : c.next = .node .approvalGate) :
      Superstep c .approvalGate
        (c.moved .approvalGate (.interrupt (interruptPayload c.state)) c.state .paused)
  | resume {decision u} (hnext : c.next = .paused) (hpass : DecisionPass decision u) :
      Superstep c (.resume decision)
        (c.moved (.resume decision) (.resume decision) (c.state.apply u)
          (if routeAfterApproval (c.state.apply u) then .node .prPublish else .finished))
  | prPublish {outcome branch u} (hnext : c.next = .node .prPublish)
      (hpass : PublishPass c.state outcome branch u) :
      Superstep c (.prPublish outcome)
        (c.moved (.prPublish outcome) (.prPublish branch) (c.state.apply u) .finished)
  | budgetAbort {now later u} (hnext : c.next = .node .budgetAbort)
      (hu : (budgetAbortNode c.state now later).update = .ok u) :
      Superstep c (.budgetAbort now later)
        (c.moved (.budgetAbort now later) .budgetAbort (c.state.apply u) .finished)

/-! #### Which records the nodes leave -/

section Records

variable (s : GraphState)

theorem record_comprehensionNode [UnicodeData] (answer : ComprehensionInput) :
    ∃ calls stoppedEarly,
      (comprehensionNode s answer).record = .comprehension calls stoppedEarly := by
  unfold comprehensionNode
  split <;> exact ⟨_, _, rfl⟩

theorem record_synthesisNode : (synthesisNode s).record = .synthesis := by
  unfold synthesisNode
  split
  · split <;> rfl
  · rfl

theorem record_sandboxTestNode (answer : SandboxInput) :
    ∃ visit, (sandboxTestNode s answer).record = .sandboxTest visit := by
  simp only [sandboxTestNode]
  repeat' split
  all_goals exact ⟨_, rfl⟩

theorem record_errorAnalysisNode (answer : AnalysisInput) :
    ∃ call, (errorAnalysisNode s answer).record = .errorAnalysis call := by
  simp only [errorAnalysisNode]
  repeat' split
  all_goals exact ⟨_, rfl⟩

end Records

theorem superstep_of_step [UnicodeData] {c c' : Snapshot} {i : Input}
    (h : step c i = some c') : Superstep c i c' := by
  unfold step at h
  split at h
  · next answer hnext =>
    obtain ⟨calls, stopped, hrec⟩ := record_comprehensionNode c.state answer
    simp only [Option.some.injEq] at h
    subst h
    rcases Snapshot.advance_cases (c := c) (comprehensionNode c.state answer) _ with
      ⟨exc, -, heq⟩ | ⟨u, next, hu, hedge, heq⟩
    · rw [heq, hrec]
      exact .raised (.comprehension hnext)
    · rw [heq]
      cases hedge
      exact .comprehension hnext (comprehensionNode_pass hu)
  · next gate hnext =>
    simp only [Option.some.injEq] at h
    subst h
    rcases Snapshot.advance_cases (c := c) (synthesisNode c.state) _ with
      ⟨exc, -, heq⟩ | ⟨u, next, hu, hedge, heq⟩
    · rw [heq, record_synthesisNode]
      exact .raised (.synthesis hnext)
    · rw [heq, record_synthesisNode]
      exact .synthesis hnext (synthesisNode_pass hu) hedge
  · next sends arrivals hnext =>
    split_ifs at h with harrivals
    simp only [Option.some.injEq] at h
    subst h
    rcases Snapshot.advanceWave_cases (c := c) (arrivalOrder sends arrivals) with
      ⟨exc, hexc, heq⟩ | ⟨updates, hu, heq⟩
    · rw [heq]
      exact .raised (.wave hnext harrivals hexc)
    · rw [heq]
      exact .wave hnext harrivals hu
  · next gate hnext =>
    simp only [Option.some.injEq] at h
    subst h
    rcases Snapshot.advance_cases (c := c) (budgetReconcileNode c.state) _ with
      ⟨exc, hexc, heq⟩ | ⟨u, next, hu, hedge, heq⟩
    · rw [heq]
      rcases hexc with hexc | ⟨u, hu, hedge⟩
      · cases hexc
      · cases hu
        exact .raised (.budgetReconcile hnext hedge)
    · rw [heq]
      cases hu
      exact .budgetReconcile hnext hedge
  · next answer hnext =>
    obtain ⟨visit, hrec⟩ := record_sandboxTestNode c.state answer
    simp only [Option.some.injEq] at h
    subst h
    rcases Snapshot.advance_cases (c := c) (sandboxTestNode c.state answer) _ with
      ⟨exc, -, heq⟩ | ⟨u, next, hu, hedge, heq⟩
    · rw [heq, hrec]
      exact .raised (.sandboxTest hnext)
    · rw [heq]
      cases hedge
      exact .sandboxTest hnext (sandboxTestNode_pass hu)
  · next answer gate hnext =>
    obtain ⟨call, hrec⟩ := record_errorAnalysisNode c.state answer
    simp only [Option.some.injEq] at h
    subst h
    rcases Snapshot.advance_cases (c := c) (errorAnalysisNode c.state answer) _ with
      ⟨exc, -, heq⟩ | ⟨u, next, hu, hedge, heq⟩
    · rw [heq, hrec]
      exact .raised (.errorAnalysis hnext)
    · rw [heq]
      exact .errorAnalysis hnext (errorAnalysisNode_pass hu) hedge
  · next hnext =>
    obtain ⟨hrec, u, hu, hpass⟩ := aggregateNode_pass c.state
    simp only [Option.some.injEq] at h
    subst h
    rw [Snapshot.advance_ok hu rfl, hrec]
    exact .aggregate hnext hpass
  · next hnext =>
    simp only [Option.some.injEq] at h
    subst h
    exact .requestApproval hnext
  · next hnext =>
    simp only [Option.some.injEq] at h
    subst h
    exact .approvalGate hnext
  · next decision hnext =>
    obtain ⟨hrec, u, hu, hpass⟩ := approvalGateNode_pass c.state decision
    simp only [Option.some.injEq] at h
    subst h
    rw [Snapshot.advance_ok hu rfl, hrec]
    exact .resume hnext hpass
  · next outcome hnext =>
    obtain ⟨branch, u, hrec, hu, hpass⟩ := prPublishNode_pass c.state outcome
    simp only [Option.some.injEq] at h
    subst h
    rw [Snapshot.advance_ok hu rfl, hrec]
    exact .prPublish hnext hpass
  · next now later hnext =>
    simp only [Option.some.injEq] at h
    subst h
    exact .budgetAbort hnext rfl
  · cases h

/-- Nothing is executed after the end. -/
theorem next_ne_finished [UnicodeData] {c c' : Snapshot} {i : Input} (h : Superstep c i c') :
    c.next ≠ .finished := by
  cases h with
  | raised hraising => cases hraising <;> simp_all
  | _ => simp_all

/-- Nothing is executed after a node has raised. -/
theorem next_ne_raised [UnicodeData] {c c' : Snapshot} {i : Input} {exc : PyException}
    (h : Superstep c i c') : c.next ≠ .raised exc := by
  cases h with
  | raised hraising => cases hraising <;> simp_all
  | _ => simp_all

theorem isRaised_of_superstep [UnicodeData] {c c' : Snapshot} {i : Input}
    (h : Superstep c i c') : c.next.isRaised = false := by
  rw [← Bool.not_eq_true, Next.isRaised_iff]
  rintro ⟨exc, hexc⟩
  exact next_ne_raised h hexc

/-- The superstep of a reconciliation: its router divides by zero and the state stays, or the
deltas are charged. -/
theorem superstep_of_reconcile [UnicodeData] {c c' : Snapshot} {i : Input}
    (hnext : c.next = .node .budgetReconcile) (h : Superstep c i c') :
    ∃ gate, i = .budgetReconcile gate ∧ c'.trace = .budgetReconcile :: c.trace ∧
      ((∃ exc, dispatch (.node .sandboxTest) gate c.state.reconciled = .error exc ∧
          c'.state = c.state ∧ c'.next = .raised exc) ∨
        (dispatch (.node .sandboxTest) gate c.state.reconciled = .ok c'.next ∧
          c'.state = c.state.reconciled)) := by
  cases h with
  | raised hraising =>
    cases hraising with
    | budgetReconcile _ hroute => exact ⟨_, rfl, rfl, Or.inl ⟨_, hroute, rfl, rfl⟩⟩
    | _ => simp_all
  | budgetReconcile _ hroute => exact ⟨_, rfl, rfl, Or.inr ⟨hroute, rfl⟩⟩
  | _ => simp_all

/-! ### The dispatch edge -/

/-- Where an edge through `route_to_editors` can lead. -/
inductive Dispatched (noReadyTasks : Next) (gate : GateReadings) (s : GraphState) : Next → Prop
  | nothingReady (hready : getReadyTasks s.tasks = []) :
      Dispatched noReadyTasks gate s noReadyTasks
  | exhausted (hready : getReadyTasks s.tasks ≠ [])
      (hfirst : s.budget.isExhausted gate.first = true) :
      Dispatched noReadyTasks gate s (.node .budgetAbort)
  | crossed (hready : getReadyTasks s.tasks ≠ [])
      (hfirst : s.budget.isExhausted gate.first = false)
      (hsecond : s.budget.isExhausted gate.second = true) :
      Dispatched noReadyTasks gate s .finished
  | wave (hready : getReadyTasks s.tasks ≠ [])
      (hfirst : s.budget.isExhausted gate.first = false)
      (hsecond : s.budget.isExhausted gate.second = false)
      (hreserve : s.budget.callReserve ≠ 0) :
      Dispatched noReadyTasks gate s (.editors (sendsFor s (nextWave s)))

theorem dispatched_of_dispatch {noReadyTasks next : Next} {gate : GateReadings} {s : GraphState}
    (h : dispatch noReadyTasks gate s = .ok next) : Dispatched noReadyTasks gate s next := by
  have hpass := routeToEditors_pass s gate
  unfold dispatch at h
  generalize routeToEditors s gate = r at h hpass
  cases hpass with
  | nothingReady hready =>
    cases h
    exact .nothingReady hready
  | exhausted hready hfirst =>
    cases h
    exact .exhausted hready hfirst
  | crossed hready hfirst hsecond =>
    cases h
    exact .crossed hready hfirst hsecond
  | zeroReserve => cases h
  | dispatched hready hfirst hsecond hreserve =>
    have hwave : Dispatched noReadyTasks gate s (.editors (sendsFor s (nextWave s))) :=
      .wave hready hfirst hsecond hreserve
    have hne : sendsFor s (nextWave s) ≠ [] := by
      simpa [sendsFor] using nextWave_ne_nil hready
    generalize sendsFor s (nextWave s) = sends at h hne hwave
    cases sends with
    | nil => exact absurd rfl hne
    | cons send rest =>
      cases h
      exact hwave

/-- The four places behind the gate. -/
theorem next_of_dispatched {noReadyTasks next : Next} {gate : GateReadings} {s : GraphState}
    (hedge : noReadyTasks = .node .sandboxTest ∨ noReadyTasks = .finished)
    (h : Dispatched noReadyTasks gate s next) :
    (∃ sends, next = .editors sends) ∨ next = .node .sandboxTest ∨ next = .node .budgetAbort ∨
      next = .finished := by
  cases h with
  | nothingReady =>
    rcases hedge with rfl | rfl
    · exact Or.inr (Or.inl rfl)
    · exact Or.inr (Or.inr (Or.inr rfl))
  | exhausted => exact Or.inr (Or.inr (Or.inl rfl))
  | crossed => exact Or.inr (Or.inr (Or.inr rfl))
  | wave => exact Or.inl ⟨_, rfl⟩

theorem Dispatched.isRaised_eq_false {noReadyTasks next : Next} {gate : GateReadings}
    {s : GraphState} (h : Dispatched noReadyTasks gate s next)
    (hedge : noReadyTasks = .node .sandboxTest ∨ noReadyTasks = .finished) :
    next.isRaised = false := by
  rcases next_of_dispatched hedge h with ⟨sends, rfl⟩ | rfl | rfl | rfl <;> rfl

/-- A step that raises leaves the state alone. -/
theorem state_of_isRaised [UnicodeData] {c c' : Snapshot} {i : Input} (h : Superstep c i c')
    (hraised : c'.next.isRaised = true) : c'.state = c.state := by
  have hcontra : ∀ {next : Next}, next.isRaised = false → next.isRaised = true →
      c'.state = c.state := by
    intro next hfalse htrue
    rw [hfalse] at htrue
    cases htrue
  cases h with
  | raised => rfl
  | comprehension =>
    refine hcontra ?_ hraised
    rw [Snapshot.moved_next, routeAfterComprehension]
    split <;> rfl
  | synthesis _ _ hroute | budgetReconcile _ hroute =>
    exact hcontra ((dispatched_of_dispatch hroute).isRaised_eq_false (Or.inl rfl)) hraised
  | errorAnalysis _ _ hroute =>
    exact hcontra ((dispatched_of_dispatch hroute).isRaised_eq_false (Or.inr rfl)) hraised
  | aggregate =>
    refine hcontra ?_ hraised
    rw [Snapshot.moved_next, routeAfterAggregate]
    repeat' split
    all_goals rfl
  | resume =>
    refine hcontra ?_ hraised
    rw [Snapshot.moved_next]
    split <;> rfl
  | wave | sandboxTest | requestApproval | approvalGate | prPublish | budgetAbort => cases hraised

/-- The router only raises by dividing by a reserve of zero. -/
theorem reserve_of_dispatch_error {noReadyTasks : Next} {gate : GateReadings} {s : GraphState}
    {exc : PyException} (h : dispatch noReadyTasks gate s = .error exc) :
    s.budget.isExhausted gate.first = false ∧ s.budget.callReserve = 0 := by
  have hpass := routeToEditors_pass s gate
  unfold dispatch at h
  generalize routeToEditors s gate = r at h hpass
  cases hpass with
  | zeroReserve _ hfirst _ hreserve => exact ⟨hfirst, hreserve⟩
  | _ => cases h

end StackMigrate
