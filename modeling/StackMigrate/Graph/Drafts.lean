import StackMigrate.Properties.Publication

/-!
# The draft and the call made of it

`aggregate` drafts the pull request from the state, and nothing the draft is made of changes
behind it: what the publisher is called with is the draft of the final state.
-/

namespace StackMigrate

open KeyedList

/-- The draft of a state. -/
def GraphState.draft (s : GraphState) : PRDraft :=
  buildPrDraft s.config (effectiveResults s.editorResults s.tasks) s.tasks s.comprehension

/-- Draft and publisher calls, as they follow from the state. -/
structure Drafts (c : Snapshot) : Prop where
  draft : ∀ draft, c.state.prDraft = some draft → draft = c.state.draft
  calls : ∀ call ∈ publishCalls c.trace,
    c.state.prDraft = some c.state.draft ∧ call = publishCall c.state c.state.draft

section Steps

variable {c c' : Snapshot} {i : Input} {event : Event} {s : GraphState} {next : Next}

theorem Drafts.of_undrafted (hdraft : c.state.prDraft = none) (hquiet : Unreviewed c.trace) :
    Drafts c := by
  refine ⟨by simp [hdraft], ?_⟩
  rw [hquiet.publishCalls_eq_nil]
  simp

/-- A step that leaves alone what the draft is made of. -/
theorem Drafts.carry (h : Drafts c) (hevent : event.publishCall? = none)
    (hconfig : s.config = c.state.config) (hresults : s.editorResults = c.state.editorResults)
    (htasks : s.tasks = c.state.tasks) (hcomp : s.comprehension = c.state.comprehension)
    (hdraft : s.prDraft = c.state.prDraft) : Drafts (c.moved i event s next) := by
  have hsame : s.draft = c.state.draft := by
    simp [GraphState.draft, hconfig, hresults, htasks, hcomp]
  have hcall : publishCall s s.draft = publishCall c.state c.state.draft := by
    rw [hsame]
    simp [publishCall, hconfig, hresults, htasks]
  have hcalls : publishCalls (event :: c.trace) = publishCalls c.trace := by
    simp [publishCalls, hevent]
  refine ⟨?_, ?_⟩
  · intro draft hd
    rw [Snapshot.moved_state] at hd ⊢
    rw [hsame]
    exact h.draft draft (hdraft ▸ hd)
  · intro call hmem
    rw [Snapshot.moved_trace, hcalls] at hmem
    rw [Snapshot.moved_state, hdraft, hcall, hsame]
    exact h.calls call hmem

/-- The call is made of the draft, and it is the first one. -/
theorem Drafts.called (h : Drafts c) (hquiet : publishCalls c.trace = []) {draft : PRDraft}
    (hdraft : c.state.prDraft = some draft) {u : Update} (hresults : u.editorResults = [])
    (htasks : u.tasks = none) (hcomp : u.comprehension = none) (hkept : u.prDraft = none) :
    Drafts (c.moved i (.prPublish (.called (publishCall c.state draft)))
      (c.state.apply u) next) := by
  have hown : draft = c.state.draft := h.draft draft hdraft
  subst hown
  have hsame : (c.state.apply u).draft = c.state.draft := by
    simp [GraphState.draft, hresults, htasks, hcomp]
  have hcall : publishCall (c.state.apply u) c.state.draft = publishCall c.state c.state.draft := by
    simp [publishCall, hresults, htasks]
  have hdraft' : (c.state.apply u).prDraft = some c.state.draft := by simp [hkept, hdraft]
  refine ⟨?_, ?_⟩
  · intro draft hd
    rw [Snapshot.moved_state, hdraft', Option.some.injEq] at hd
    rw [Snapshot.moved_state, hsame, hd]
  · intro call hmem
    have hmem' : call ∈ publishCall c.state c.state.draft :: publishCalls c.trace := hmem
    rw [hquiet, List.mem_singleton] at hmem'
    rw [Snapshot.moved_state, hsame, hcall]
    exact ⟨hdraft', hmem'⟩

variable [UnicodeData]

theorem step_aggregate (hnext : c.next = .node .aggregate) (h : step c i = some c') :
    c' = c.advance i (aggregateNode c.state) fun s => .ok (routeAfterAggregate s) := by
  unfold step at h
  split at h <;> simp_all

/-- What `aggregate` writes besides the log. -/
theorem draft_of_aggregateNode {s : GraphState} {u : Update}
    (h : (aggregateNode s).update = .ok u) :
    u.prDraft = none ∨ (u.prDraft = some s.draft ∧ u.tasks = none ∧ u.comprehension = none ∧
      u.editorResults = []) := by
  simp only [aggregateNode] at h
  split at h
  · cases h
    exact Or.inl rfl
  · split at h
    · cases h
      exact Or.inr ⟨rfl, rfl, rfl, rfl⟩
    · cases h
      exact Or.inl rfl

theorem drafts_aggregate (hnext : c.next = .node .aggregate)
    (hs : Stage c.state c.trace c.next) (h : step c i = some c') : Drafts c' := by
  rw [hnext] at hs
  obtain ⟨hquiet, hnone, -⟩ := hs
  have hquiet' : Unreviewed (Event.aggregate :: c.trace) := hquiet.cons rfl
  obtain ⟨hrecord, u, hu, -⟩ := aggregateNode_pass c.state
  rw [step_aggregate hnext h, Snapshot.advance_ok hu rfl, hrecord]
  rcases draft_of_aggregateNode hu with hdraft | ⟨hdraft, htasks, hcomp, hresults⟩
  · exact .of_undrafted (by simp [hdraft, hnone]) hquiet'
  · have hsame : (c.state.apply u).draft = c.state.draft := by
      simp [GraphState.draft, htasks, hcomp, hresults]
    refine ⟨?_, ?_⟩
    · intro draft hd
      rw [Snapshot.moved_state, GraphState.apply_prDraft, hdraft, Option.some_or,
        Option.some.injEq] at hd
      rw [Snapshot.moved_state, hsame, hd]
    · rw [Snapshot.moved_trace, hquiet'.publishCalls_eq_nil]
      simp

theorem drafts_step (hp : Placed c.state c.next) (hs : Stage c.state c.trace c.next)
    (hd : Drafts c) (h : step c i = some c') : Drafts c' := by
  have hs' := stage_superstep hp hs (superstep_of_step h)
  by_cases hagg : c.next = .node .aggregate
  · exact drafts_aggregate hagg hs h
  cases superstep_of_step h with
  | raised hraising =>
    refine hd.carry ?_ rfl rfl rfl rfl rfl
    cases hraising <;> rfl
  | comprehension hnext hpass =>
    rw [hnext] at hs
    refine .of_undrafted ?_ (hs.unreviewed.cons (isReview_of_comprehension hpass))
    cases hpass <;> simpa using hs.draft
  | synthesis hnext hpass =>
    rw [hnext] at hs
    refine .of_undrafted ?_ (hs.unreviewed.cons rfl)
    cases hpass <;> simpa using hs.draft
  | wave hnext _ hupdates =>
    rw [hnext] at hs
    obtain ⟨log, hlog⟩ := applyAll_wave hp.nodup hupdates
    refine .of_undrafted ?_ (hs.unreviewed.cons rfl)
    rw [Snapshot.moved_state, hlog]
    exact hs.draft
  | budgetReconcile hnext =>
    rw [hnext] at hs
    exact .of_undrafted (by simpa [GraphState.reconciled] using hs.draft) (hs.unreviewed.cons rfl)
  | sandboxTest hnext hpass =>
    rw [hnext] at hs
    refine .of_undrafted ?_ (hs.unreviewed.cons (isReview_of_sandbox hpass))
    cases hpass <;> simpa using hs.draft
  | errorAnalysis hnext hpass =>
    rw [hnext] at hs
    refine .of_undrafted ?_ (hs.unreviewed.cons (isReview_of_analysis hpass))
    cases hpass <;> simpa using hs.draft
  | aggregate hnext => exact absurd hnext hagg
  | requestApproval => exact hd.carry rfl rfl (by simp) rfl rfl rfl
  | approvalGate => exact hd.carry rfl rfl rfl rfl rfl rfl
  | resume hnext hpass =>
    refine hd.carry rfl rfl ?_ ?_ ?_ ?_
    all_goals cases hpass <;> simp
  | prPublish hnext hpass =>
    rw [hnext] at hs
    have hquiet : publishCalls c.trace = [] := hs.2.1.publishCalls_eq_nil
    cases hpass with
    | noDraft | noTargetRepo | refused =>
      exact hd.carry rfl rfl (by simp) rfl rfl rfl
    | failed draft log hdraft => exact hd.called hquiet hdraft rfl rfl rfl rfl
    | published draft result hdraft => exact hd.called hquiet hdraft rfl rfl rfl rfl
  | budgetAbort hnext hu =>
    rw [hnext] at hs
    cases hu
    exact .of_undrafted (by simpa using hs.draft) (hs.unreviewed.cons rfl)

end Steps

theorem drafts_of_run [UnicodeData] {config : MigrationRunConfig} {limits : BudgetLimits}
    {maxRetryRounds : ℤ} {startedAt : ℚ} {inputs : List Input} {c : Snapshot}
    (hrun : graph.Run (initial config limits maxRetryRounds startedAt) inputs c) : Drafts c := by
  refine hrun.invariant_under
    (I := fun c => Placed c.state c.next ∧ Stage c.state c.trace c.next)
    (fun hrun => ⟨placed_of_run hrun, stage_of_run hrun⟩) ?_ ?_
  · exact .of_undrafted rfl (by simp [Unreviewed, initial])
  · intro c i c' hc hd hstep _
    exact drafts_step hc.1 hc.2 hd hstep

/-- The publisher is called with the draft and the effective files of the state. -/
theorem publishCall_of_run [UnicodeData] {config : MigrationRunConfig} {limits : BudgetLimits}
    {maxRetryRounds : ℤ} {startedAt : ℚ} {inputs : List Input} {c : Snapshot}
    (hrun : graph.Run (initial config limits maxRetryRounds startedAt) inputs c)
    {call : PublishCall} (hcall : call ∈ publishCalls c.trace) :
    c.state.prDraft = some c.state.draft ∧ call = publishCall c.state c.state.draft ∧
      c.state.config = config :=
  ⟨((drafts_of_run hrun).calls call hcall).1, ((drafts_of_run hrun).calls call hcall).2,
    config_of_run hrun⟩

end StackMigrate
