import StackMigrate.Graph.Replay

/-!
# Tested, reviewed, shipped

One invariant follows a run from the passing sandbox visit to the publisher. Behind
`aggregate` no node touches tasks or results, so the files that were tested, shown to
the reviewer and published are the same list.
-/

namespace StackMigrate

/-! ### Stages of a draft -/

/-- The latest sandbox visit ran the suite on the files in hand, and it passed. -/
def Tested (s : GraphState) (trace : List Event) : Prop :=
  ∃ result,
    lastVisit trace = some (.ran (effectiveDiffs s.editorResults s.tasks) (some result)) ∧
      result.outcome = .passed

structure Drafted [UnicodeData] (s : GraphState) (trace : List Event) : Prop where
  tested : Tested s trace
  draft : s.prDraft.isSome
  paths : s.aggregatedDiffPaths =
    some ((effectiveDiffs s.editorResults s.tasks).map FileDiff.path)
  nonempty : effectiveDiffs s.editorResults s.tasks ≠ []
  publishable : ∀ d ∈ effectiveDiffs s.editorResults s.tasks, publishablePathProblem d.path = none

/-- Nothing is drafted, and no stored sandbox result could be taken for a pass. -/
structure Undrafted (s : GraphState) (trace : List Event) : Prop where
  unreviewed : Unreviewed trace
  draft : s.prDraft = none
  failing : routeAfterSandbox s = false

/-- The two ways to be allowed to publish. -/
inductive Clearance (s : GraphState) : List Event → Prop
  | unneeded {trace} (hneeds : needsHumanApproval s = false) (hquiet : Unreviewed trace) :
      Clearance s trace
  | approved {decision payload earlier} (hdecision : isApproval decision = true)
      (hpayload : s.aggregatedDiffPaths = some payload.files) (hquiet : Unreviewed earlier) :
      Clearance s (.resume decision :: .interrupt payload :: earlier)

/-- How a run can end. -/
inductive Ending [UnicodeData] (s : GraphState) : List Event → Prop
  | unreviewed {trace} (hquiet : Unreviewed trace) : Ending s trace
  | rejected {decision payload earlier} (hdecision : isApproval decision = false)
      (hquiet : Unreviewed earlier) (hphase : s.phase = some .rejected)
      (hstatus : s.approvalStatus = some "rejected") :
      Ending s (.resume decision :: .interrupt payload :: earlier)
  | published {branch earlier} (hdrafted : Drafted s earlier) (hclearance : Clearance s earlier)
      (hallowed : branch ≠ .refused)
      (hcall : ∀ call, branch = .called call →
        hasTargetRepo s = true ∧ call.files = effectiveDiffs s.editorResults s.tasks) :
      Ending s (.prPublish branch :: earlier)

/-- What is known about draft and trace where the graph stands. -/
def Stage [UnicodeData] (s : GraphState) (trace : List Event) : Next → Prop
  | .node .aggregate => Unreviewed trace ∧ s.prDraft = none ∧ Tested s trace
  | .node .requestApproval | .node .approvalGate =>
    Unreviewed trace ∧ Drafted s trace ∧ needsHumanApproval s = true
  | .paused =>
    Drafted s trace ∧ needsHumanApproval s = true ∧
      ∃ payload earlier, trace = .interrupt payload :: earlier ∧
        s.aggregatedDiffPaths = some payload.files ∧ Unreviewed earlier
  | .node .prPublish =>
    Drafted s trace ∧ Clearance s trace ∧
      (needsHumanApproval s = true → routeAfterApproval s = true)
  | .finished => Ending s trace
  | .raised _ => Unreviewed trace
  | .node _ | .editors _ => Undrafted s trace

/-! ### What the steps preserve -/

section Carry

variable {s s' : GraphState} {trace : List Event} {e : Event}

theorem Undrafted.carry (h : Undrafted s trace) (he : e.isReview = false)
    (hdraft : s'.prDraft = s.prDraft) (hsuite : s'.fullSuiteResult = s.fullSuiteResult) :
    Undrafted s' (e :: trace) := by
  refine ⟨h.unreviewed.cons he, hdraft.trans h.draft, ?_⟩
  have hfailing := h.failing
  unfold routeAfterSandbox at hfailing ⊢
  rwa [hsuite]

theorem Undrafted.apply {u : Update} (h : Undrafted s trace) (he : e.isReview = false)
    (hdraft : u.prDraft = none) (hsuite : u.fullSuiteResult = none) :
    Undrafted (s.apply u) (e :: trace) :=
  h.carry he (by simp [hdraft]) (by simp [hsuite])

variable [UnicodeData]

theorem Drafted.carry (h : Drafted s trace) (he : e.visit? = none)
    (hresults : s'.editorResults = s.editorResults) (htasks : s'.tasks = s.tasks)
    (hpaths : s'.aggregatedDiffPaths = s.aggregatedDiffPaths) (hdraft : s'.prDraft = s.prDraft) :
    Drafted s' (e :: trace) := by
  obtain ⟨⟨result, hvisit, hpassed⟩, hd, hp, hn, hpub⟩ := h
  have heff : effectiveDiffs s'.editorResults s'.tasks =
      effectiveDiffs s.editorResults s.tasks := by rw [hresults, htasks]
  refine ⟨⟨result, ?_, hpassed⟩, hdraft ▸ hd, ?_, heff ▸ hn, heff ▸ hpub⟩
  · rw [lastVisit_cons he, hvisit, heff]
  · rw [hpaths, hp, heff]

theorem stage_of_dispatched {noReadyTasks next : Next} {gate : GateReadings}
    (hedge : noReadyTasks = .node .sandboxTest ∨ noReadyTasks = .finished)
    (h : Dispatched noReadyTasks gate s next) (hs : Undrafted s trace) : Stage s trace next := by
  cases h with
  | nothingReady =>
    rcases hedge with rfl | rfl
    · exact hs
    · exact .unreviewed hs.unreviewed
  | exhausted => exact hs
  | crossed => exact .unreviewed hs.unreviewed
  | wave => exact hs

end Carry

section Steps

variable [UnicodeData] {c : Snapshot} {event : Event} {u : Update}

theorem stage_raising {i : Input} {exc : PyException} (h : Raising c i event exc)
    (hs : Stage c.state c.trace c.next) : Unreviewed (event :: c.trace) := by
  refine Unreviewed.cons ?_ (isReview_of_raising h)
  cases h with
  | comprehension hnext | synthesis hnext | wave hnext _ _ | budgetReconcile hnext _
  | sandboxTest hnext | errorAnalysis hnext =>
    rw [hnext] at hs
    exact hs.unreviewed

/-- Only a visit that passes leaves the sandbox towards `aggregate`. -/
theorem stage_sandbox {answer : SandboxInput} (hs : Undrafted c.state c.trace)
    (hpass : SandboxPass c.state answer event u) :
    Stage (c.state.apply u) (event :: c.trace)
      (.node (if routeAfterSandbox (c.state.apply u) then .aggregate else .errorAnalysis)) := by
  have hquiet := hs.unreviewed.cons (isReview_of_sandbox hpass)
  have hdraft : (c.state.apply u).prDraft = none := by cases hpass <;> simpa using hs.draft
  cases hroute : routeAfterSandbox (c.state.apply u) with
  | false => exact ⟨hquiet, hdraft, hroute⟩
  | true =>
    refine ⟨hquiet, hdraft, ?_⟩
    have hfailing := hs.failing
    cases hpass with
    | noDiffs | unsafePath =>
      simp only [routeAfterSandbox, GraphState.apply_fullSuiteResult, Option.none_or]
        at hroute hfailing
      rw [hroute] at hfailing
      cases hfailing
    | ran result =>
      refine ⟨result, by simp, ?_⟩
      simpa [routeAfterSandbox] using hroute

theorem stage_aggregate (hs : Unreviewed c.trace ∧ c.state.prDraft = none ∧ Tested c.state c.trace)
    (hpass : AggregatePass c.state u) :
    Stage (c.state.apply u) (.aggregate :: c.trace) (routeAfterAggregate (c.state.apply u)) := by
  obtain ⟨hquiet, hdraft, result, hvisit, hpassed⟩ := hs
  have hquiet' : Unreviewed (.aggregate :: c.trace) := hquiet.cons rfl
  cases hpass with
  | refused =>
    simp only [routeAfterAggregate, GraphState.apply_prDraft, Option.none_or, hdraft,
      Option.isNone_none, if_true]
    exact .unreviewed hquiet'
  | drafted draft hdiffs hpaths =>
    have hdrafted : Drafted (c.state.apply
        { aggregatedDiffPaths :=
            some ((effectiveDiffs c.state.editorResults c.state.tasks).map FileDiff.path)
          prDraft := some draft
          phase := some .aggregating }) (.aggregate :: c.trace) := by
      refine ⟨⟨result, ?_, hpassed⟩, by simp, by simp, by simpa using hdiffs, by simpa using hpaths⟩
      rw [lastVisit_cons rfl, hvisit]
      simp
    simp only [routeAfterAggregate, GraphState.apply_prDraft, Option.some_or, Option.isNone_some,
      Bool.false_eq_true, if_false]
    split
    · next hneeds => exact ⟨hquiet', hdrafted, hneeds⟩
    · next hneeds =>
      have hfree := eq_false_of_ne_true hneeds
      refine ⟨hdrafted, .unneeded hfree hquiet', ?_⟩
      rw [hfree]
      intro h
      cases h

theorem stage_resume {decision : Json} (hs : Stage c.state c.trace .paused)
    (hpass : DecisionPass decision u) :
    Stage (c.state.apply u) (.resume decision :: c.trace)
      (if routeAfterApproval (c.state.apply u) then .node .prPublish else .finished) := by
  obtain ⟨hdrafted, hneeds, payload, earlier, htrace, hpayload, hquiet⟩ := hs
  cases hpass with
  | approved hdecision =>
    have hroute : routeAfterApproval (c.state.apply
        { approvalStatus := some "approved"
          humanFeedback := some (feedbackOf decision)
          phase := some .prGeneration }) = true := by simp [routeAfterApproval]
    rw [hroute]
    refine ⟨hdrafted.carry rfl (by simp) rfl rfl rfl, ?_, fun _ => hroute⟩
    rw [htrace]
    exact .approved hdecision (by simpa using hpayload) hquiet
  | rejected log hdecision =>
    have hroute : routeAfterApproval (c.state.apply
        { approvalStatus := some "rejected"
          humanFeedback := some (feedbackOf decision)
          phase := some .rejected
          errorLog := log }) = false := by simp [routeAfterApproval]
    rw [hroute, htrace]
    exact .rejected hdecision hquiet (by simp) (by simp)

theorem stage_prPublish {outcome : Except String PublishedPR} {branch : PublishOutcome}
    (hs : Stage c.state c.trace (.node .prPublish))
    (hpass : PublishPass c.state outcome branch u) :
    Ending (c.state.apply u) (.prPublish branch :: c.trace) := by
  obtain ⟨hdrafted, hclearance, hcleared⟩ := hs
  have hkeeps : u.editorResults = [] ∧ u.tasks = none ∧ u.aggregatedDiffPaths = none ∧
      u.prDraft = none := by
    cases hpass <;> exact ⟨rfl, rfl, rfl, rfl⟩
  obtain ⟨hresults, htasks, hpaths, hdraft⟩ := hkeeps
  have heff : effectiveDiffs (c.state.apply u).editorResults (c.state.apply u).tasks =
      effectiveDiffs c.state.editorResults c.state.tasks := by simp [hresults, htasks]
  refine .published ?_ ?_ ?_ ?_
  · obtain ⟨⟨result, hvisit, hpassed⟩, hd, hp, hn, hpub⟩ := hdrafted
    refine ⟨⟨result, heff ▸ hvisit, hpassed⟩, by simpa [hdraft] using hd, ?_, heff ▸ hn,
      heff ▸ hpub⟩
    rw [heff, GraphState.apply_aggregatedDiffPaths, hpaths, Option.none_or, hp]
  · generalize htrace : c.trace = trace at hclearance
    cases hclearance with
    | unneeded hneeds hquiet => exact .unneeded hneeds hquiet
    | approved hdecision hpayload hquiet =>
      exact .approved hdecision (by simpa [hpaths] using hpayload) hquiet
  · cases hpass with
    | refused log hneeds hstatus =>
      rw [hcleared hneeds] at hstatus
      cases hstatus
    | _ => simp
  · intro call hcall
    rw [heff]
    cases hpass with
    | failed draft log _ hrepo _ =>
      cases hcall
      exact ⟨hrepo, rfl⟩
    | published draft result _ hrepo _ =>
      cases hcall
      exact ⟨hrepo, rfl⟩
    | _ => cases hcall

theorem stage_superstep {c' : Snapshot} {i : Input} (hp : Placed c.state c.next)
    (hs : Stage c.state c.trace c.next) (h : Superstep c i c') :
    Stage c'.state c'.trace c'.next := by
  cases h with
  | raised hraising => exact stage_raising hraising hs
  | @comprehension _ _ u hnext hpass =>
    rw [hnext] at hs
    have hcarried := hs.apply (u := u) (isReview_of_comprehension hpass)
      (by cases hpass <;> rfl) (by cases hpass <;> rfl)
    simp only [Snapshot.moved_next, routeAfterComprehension]
    split <;> exact hcarried
  | synthesis hnext hpass hroute =>
    rw [hnext] at hs
    exact stage_of_dispatched (Or.inl rfl) (dispatched_of_dispatch hroute)
      (hs.apply rfl (by cases hpass <;> rfl) (by cases hpass <;> rfl))
  | wave hnext _ hupdates =>
    rw [hnext] at hs
    obtain ⟨log, hlog⟩ := applyAll_wave hp.nodup hupdates
    simp only [Snapshot.moved_state, hlog]
    exact hs.carry rfl rfl rfl
  | budgetReconcile hnext hroute =>
    rw [hnext] at hs
    exact stage_of_dispatched (Or.inl rfl) (dispatched_of_dispatch hroute) (hs.carry rfl rfl rfl)
  | sandboxTest hnext hpass =>
    rw [hnext] at hs
    exact stage_sandbox hs hpass
  | errorAnalysis hnext hpass hroute =>
    rw [hnext] at hs
    exact stage_of_dispatched (Or.inr rfl) (dispatched_of_dispatch hroute)
      (hs.apply (isReview_of_analysis hpass) (by cases hpass <;> rfl) (by cases hpass <;> rfl))
  | aggregate hnext hpass =>
    rw [hnext] at hs
    exact stage_aggregate hs hpass
  | requestApproval hnext =>
    rw [hnext] at hs
    exact ⟨hs.1.cons rfl, hs.2.1.carry rfl (by simp) rfl rfl rfl, hs.2.2⟩
  | approvalGate hnext =>
    rw [hnext] at hs
    obtain ⟨hquiet, hdrafted, hneeds⟩ := hs
    refine ⟨hdrafted.carry rfl rfl rfl rfl rfl, hneeds, _, _, rfl, ?_, hquiet⟩
    simp [interruptPayload, hdrafted.paths]
  | resume hnext hpass =>
    rw [hnext] at hs
    exact stage_resume hs hpass
  | prPublish hnext hpass =>
    rw [hnext] at hs
    exact stage_prPublish hs hpass
  | budgetAbort hnext =>
    rw [hnext] at hs
    exact .unreviewed (hs.unreviewed.cons rfl)

end Steps

section Runs

variable [UnicodeData] {config : MigrationRunConfig} {limits : BudgetLimits} {maxRetryRounds : ℤ}
  {startedAt : ℚ} {inputs : List Input} {c : Snapshot}

theorem stage_of_run
    (hrun : graph.Run (initial config limits maxRetryRounds startedAt) inputs c) :
    Stage c.state c.trace c.next := by
  refine hrun.invariant_under (J := fun c => Stage c.state c.trace c.next) placed_of_run ?_ ?_
  · exact ⟨by simp [Unreviewed, initial], rfl, rfl⟩
  · intro c i c' hp hs hstep _
    exact stage_superstep hp hs (superstep_of_step hstep)

/-! ### Reading the invariant -/

namespace Clearance

omit [UnicodeData]

variable {s : GraphState} {trace : List Event}

theorem prPublish_notMem (h : Clearance s trace) (branch : PublishOutcome) :
    .prPublish branch ∉ trace := by
  cases h with
  | unneeded _ hquiet => exact hquiet.prPublish_notMem branch
  | approved _ _ hquiet => simpa using hquiet.prPublish_notMem branch

theorem publishCalls_eq_nil (h : Clearance s trace) : publishCalls trace = [] := by
  cases h with
  | unneeded _ hquiet => exact hquiet.publishCalls_eq_nil
  | approved _ _ hquiet =>
    simpa [publishCalls, Event.publishCall?] using hquiet.publishCalls_eq_nil

theorem files_of_interrupt (h : Clearance s trace) {payload : InterruptPayload}
    (hmem : .interrupt payload ∈ trace) : s.aggregatedDiffPaths = some payload.files := by
  cases h with
  | unneeded _ hquiet => exact absurd hmem (hquiet.interrupt_notMem payload)
  | approved _ hpayload hquiet =>
    simp only [List.mem_cons, hquiet.interrupt_notMem, Event.interrupt.injEq, reduceCtorEq,
      false_or, or_false] at hmem
    exact hmem ▸ hpayload

end Clearance

/-- Publishing ends the run, once, and only behind a clearance. -/
theorem published_of_mem {s : GraphState} {trace : List Event} {next : Next}
    {branch : PublishOutcome} (hs : Stage s trace next) (hmem : .prPublish branch ∈ trace) :
    next = .finished ∧ ∃ earlier, trace = .prPublish branch :: earlier ∧ Drafted s earlier ∧
      Clearance s earlier ∧ branch ≠ .refused ∧ ∀ call, branch = .called call →
        hasTargetRepo s = true ∧ call.files = effectiveDiffs s.editorResults s.tasks := by
  have hquiet : Unreviewed trace → next = .finished ∧ ∃ earlier,
      trace = .prPublish branch :: earlier ∧ Drafted s earlier ∧ Clearance s earlier ∧
      branch ≠ .refused ∧ ∀ call, branch = .called call →
        hasTargetRepo s = true ∧ call.files = effectiveDiffs s.editorResults s.tasks :=
    fun h => absurd hmem (h.prPublish_notMem branch)
  cases next with
  | node n =>
    cases n with
    | aggregate | requestApproval | approvalGate => exact hquiet hs.1
    | prPublish => exact absurd hmem (hs.2.1.prPublish_notMem branch)
    | _ => exact hquiet hs.unreviewed
  | editors => exact hquiet hs.unreviewed
  | raised => exact hquiet hs
  | paused =>
    obtain ⟨-, -, payload, earlier, rfl, -, h⟩ := hs
    simp [h.prPublish_notMem branch] at hmem
  | finished =>
    cases hs with
    | unreviewed h => exact hquiet h
    | rejected _ h => simp [h.prPublish_notMem branch] at hmem
    | published hdrafted hclearance hallowed hcall =>
      simp only [List.mem_cons, hclearance.prPublish_notMem branch, Event.prPublish.injEq,
        or_false] at hmem
      subst hmem
      exact ⟨rfl, _, rfl, hdrafted, hclearance, hallowed, hcall⟩

theorem published_of_split {s : GraphState} {trace later earlier : List Event} {next : Next}
    {call : PublishCall} (hs : Stage s trace next)
    (htrace : trace = later ++ .prPublish (.called call) :: earlier) :
    Drafted s earlier ∧ Clearance s earlier ∧ hasTargetRepo s = true ∧
      call.files = effectiveDiffs s.editorResults s.tasks := by
  have hmem : Event.prPublish (.called call) ∈ trace := by simp [htrace]
  obtain ⟨-, before, hbefore, hdrafted, hclearance, -, hcall⟩ := published_of_mem hs hmem
  have hsame : before = earlier := by
    rw [hbefore] at htrace
    cases later with
    | nil => exact (List.cons.inj htrace).2
    | cons e later =>
      have hagain : Event.prPublish (.called call) ∈ before := by
        rw [(List.cons.inj htrace).2]
        simp
      exact absurd hagain (hclearance.prPublish_notMem _)
  subst hsame
  exact ⟨hdrafted, hclearance, hcall call rfl⟩

theorem length_publishCalls_le_one {s : GraphState} {trace : List Event} {next : Next}
    (hs : Stage s trace next) : (publishCalls trace).length ≤ 1 := by
  cases hcalls : publishCalls trace with
  | nil => simp
  | cons call calls =>
    have hcall : call ∈ publishCalls trace := by simp [hcalls]
    obtain ⟨e, he, hpublish⟩ := List.mem_filterMap.mp hcall
    have hevent : e = .prPublish (.called call) := by
      unfold Event.publishCall? at hpublish
      split at hpublish <;> simp_all
    subst hevent
    obtain ⟨-, earlier, htrace, -, hclearance, -⟩ := published_of_mem hs he
    have honly : publishCalls trace = [call] := by
      rw [htrace]
      simpa [publishCalls, Event.publishCall?] using hclearance.publishCalls_eq_nil
    rw [← hcalls, honly]
    simp

/-- Whatever is published was tested as it is by the latest sandbox visit, which passed,
and is what the draft and the reviewer's payload list. -/
theorem published_files_were_tested
    (hrun : graph.Run (initial config limits maxRetryRounds startedAt) inputs c)
    {call : PublishCall} {later earlier : List Event}
    (hcall : c.trace = later ++ .prPublish (.called call) :: earlier) :
    call.files ≠ [] ∧ (call.files.map FileDiff.path).Nodup ∧
      call.files = effectiveDiffs c.state.editorResults c.state.tasks ∧
      (∃ result, lastVisit earlier = some (.ran call.files (some result)) ∧
        result.outcome = .passed) ∧
      c.state.aggregatedDiffPaths = some (call.files.map FileDiff.path) ∧
      (∀ payload, .interrupt payload ∈ earlier →
        payload.files = call.files.map FileDiff.path) ∧
      ∀ d ∈ call.files, publishablePathProblem d.path = none := by
  obtain ⟨hdrafted, hclearance, -, hfiles⟩ := published_of_split (stage_of_run hrun) hcall
  rw [hfiles]
  refine ⟨hdrafted.nonempty, nodup_effectiveDiffs _ _, rfl, hdrafted.tested, hdrafted.paths, ?_,
    hdrafted.publishable⟩
  intro payload hpayload
  have hboth := hclearance.files_of_interrupt hpayload
  rw [hdrafted.paths] at hboth
  exact (Option.some.inj hboth).symm

end Runs

section Approved

attribute [local instance] asciiTables

/-- One service class, migrated, tested, approved and published. -/
def approvedRun : List Input :=
  planServices [serviceFile "OrderService" []] ++
    [.editors [(0, writesAt 0 "app/services/order_service.py")], .budgetReconcile (gateAt 0),
      suite .passed, .aggregate, .requestApproval, .approvalGate,
      .resume (.obj [("approved", .bool true)]), .prPublish (.ok demoPullRequest)]

theorem published_files_were_tested_approvedRun :
    ∃ (c : Snapshot) (call : PublishCall) (earlier : List Event),
      c.trace = [] ++ .prPublish (.called call) :: earlier ∧ call.files ≠ [] ∧
      ∃ result, lastVisit earlier = some (.ran call.files (some result)) ∧
        result.outcome = .passed := by
  have hreplay : (replay (initial demoConfig demoLimits 5 0) approvedRun).any endsPublishing =
      true := by decide +kernel
  obtain ⟨c, hrun, hends⟩ := exists_run_of_replay hreplay
  obtain ⟨call, earlier, htrace⟩ := trace_of_endsPublishing hends
  have hcall : c.trace = [] ++ .prPublish (.called call) :: earlier := htrace
  obtain ⟨hne, -, -, htested, -⟩ := published_files_were_tested hrun hcall
  exact ⟨c, call, earlier, hcall, hne, htested⟩

end Approved

section Clearances

variable [UnicodeData] {config : MigrationRunConfig} {limits : BudgetLimits} {maxRetryRounds : ℤ}
  {startedAt : ℚ} {inputs : List Input} {c : Snapshot}

end Clearances

section Approved

attribute [local instance] asciiTables

end Approved

end StackMigrate
