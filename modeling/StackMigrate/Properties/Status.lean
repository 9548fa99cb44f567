import StackMigrate.Api.Status
import StackMigrate.Properties.Service

/-!
# What the status endpoint shows

The endpoint answers for every run that a worker has begun, in whatever shape the checkpoint
comes back. What it shows to a reviewer is what is published.
-/

namespace StackMigrate

/-! ### Feedback -/

/-- The feedback is a text, or none was given. -/
def TextFeedback (s : GraphState) : Prop :=
  ∀ feedback, s.humanFeedback = some feedback → feedback = .null ∨ ∃ text, feedback = .str text

/-- The checkpointer gives back what was stored, in some shape. -/
def Restores (restore : GraphState → List (String × PyObj)) : Prop :=
  ∀ s, TextFeedback s → IsState s (restore s)

section Feedback

variable [UnicodeData] {c c' : Snapshot} {i : Input} {calls : List DecideCall} {payload : Payload}
  {runId : String}

/-- Only a decision leaves feedback. -/
theorem feedback_of_step {feedback : Json} (hnd : (c.state.tasks.map MigrationTask.id).Nodup)
    (h : graph.step c i = some c')
    (hfeedback : c'.state.humanFeedback = some feedback) :
    c.state.humanFeedback = some feedback ∨
      ∃ decision, i = .resume decision ∧ feedback = feedbackOf decision := by
  cases superstep_of_step h with
  | raised => exact Or.inl hfeedback
  | comprehension _ hpass => cases hpass <;> exact Or.inl (by simpa using hfeedback)
  | synthesis _ hpass => cases hpass <;> exact Or.inl (by simpa using hfeedback)
  | wave _ _ hupdates =>
    obtain ⟨log, hlog⟩ := applyAll_wave hnd hupdates
    rw [Snapshot.moved_state, hlog] at hfeedback
    exact Or.inl hfeedback
  | budgetReconcile => exact Or.inl (by simpa [GraphState.reconciled] using hfeedback)
  | sandboxTest _ hpass => cases hpass <;> exact Or.inl (by simpa using hfeedback)
  | errorAnalysis _ hpass => cases hpass <;> exact Or.inl (by simpa using hfeedback)
  | aggregate _ hpass => cases hpass <;> exact Or.inl (by simpa using hfeedback)
  | requestApproval => exact Or.inl (by simpa using hfeedback)
  | approvalGate => exact Or.inl hfeedback
  | resume _ hpass =>
    refine Or.inr ⟨_, rfl, ?_⟩
    cases hpass <;> simpa using hfeedback.symm
  | prPublish _ hpass => cases hpass <;> exact Or.inl (by simpa using hfeedback)
  | budgetAbort _ hu =>
    cases hu
    exact Or.inl (by simpa using hfeedback)

theorem textFeedback_of_backed (h : Backed calls payload runId c) : TextFeedback c.state := by
  obtain ⟨_, _, _, _, inputs, d, -, hrun, hshadow, hresumed⟩ := h
  rw [hshadow.state]
  have hinputs : ∀ i ∈ inputs, ∀ decision, i = .resume decision →
      ∃ call : DecideCall, call.decision = decision := by
    rintro i hi decision rfl
    obtain ⟨call, -, -, hdecision⟩ := hresumed decision hi
    exact ⟨call, hdecision⟩
  refine (hrun.of_inputs hinputs).invariant_under (J := fun c => TextFeedback c.state)
    (I := fun c => (c.state.tasks.map MigrationTask.id).Nodup)
    (fun hrun => (placed_of_run hrun.run).nodup) ?_ ?_
  · intro feedback hfeedback
    cases hfeedback
  · intro c i c' hnd htext hstep hcall feedback hfeedback
    rcases feedback_of_step hnd hstep hfeedback with hold | ⟨decision, rfl, rfl⟩
    · exact htext feedback hold
    · obtain ⟨call, rfl⟩ := hcall decision rfl
      rw [feedbackOf_decision]
      cases call.feedback with
      | none => exact Or.inl rfl
      | some text => exact Or.inr ⟨text, rfl⟩

end Feedback

section Service

variable [UnicodeData] {apiKey : Option String} {validation : Validation} {s s' : Service}
  {happenings later : List Happening} {runId : String} {c c' : Snapshot} {payload : Payload}
  {restore : GraphState → List (String × PyObj)}

omit [UnicodeData] in
theorem getMigrationStatus_some (hrestore : Restores restore) (htext : TextFeedback c.state)
    (runId : String) :
    getMigrationStatus restore (some c) runId =
      .status (statusOf runId c.state (isAwaitingApproval c)) := by
  have hstate := hrestore c.state htext
  obtain ⟨budget, hbudget, -⟩ := hstate.budget
  have hsome : (restore c.state).isEmpty = false := by
    cases hvalues : restore c.state with
    | nil => simp [hvalues] at hbudget
    | cons => rfl
  simp [getMigrationStatus, hsome, stateToStatusResponse_of_isState hstate]

/-! ### The answers -/

/-- A run that waits has a draft, with the paths of its files. -/
theorem draft_of_awaiting (h : Backed s.calls payload runId c)
    (hawaiting : isAwaitingApproval c = true) :
    c.state.prDraft.isSome ∧ c.state.aggregatedDiffPaths =
      some ((effectiveDiffs c.state.editorResults c.state.tasks).map FileDiff.path) := by
  obtain ⟨_, _, _, _, _, d, -, hrun, hshadow, -⟩ := h
  have hstage := stage_of_run hrun
  rw [hshadow.state]
  rw [isAwaitingApproval, hshadow.next] at hawaiting
  split at hawaiting
  · next hpaused =>
    rw [hpaused] at hstage
    exact ⟨hstage.1.draft, hstage.1.paths⟩
  · next hgate =>
    rw [hgate] at hstage
    exact ⟨hstage.2.1.draft, hstage.2.1.paths⟩
  · cases hawaiting

/-- Whatever the shape of the checkpoint, the endpoint answers 404 for a run that no worker has
begun, and the status of the state otherwise: never with an error. It asks for a decision exactly
while the run waits for one. -/
theorem status_reports_the_run (hrestore : Restores restore)
    (h : (service apiKey validation).Run .empty happenings s) (runId : String) :
    (s.server.checkpoints runId = none ∧ getMigrationStatus restore none runId =
        .httpException 404 ("No migration run found with id '" ++ runId ++ "'")) ∨
      ∃ c response, s.server.checkpoints runId = some c ∧
        getMigrationStatus restore (some c) runId = .status response ∧
        response = statusOf runId c.state (isAwaitingApproval c) ∧
        (response.pendingApproval.isSome ↔ isAwaitingApproval c = true) := by
  cases hc : s.server.checkpoints runId with
  | none => exact Or.inl ⟨rfl, rfl⟩
  | some c =>
    obtain ⟨payload, -, hbacked⟩ := backed_of_run h hc
    refine Or.inr ⟨c, _, rfl, getMigrationStatus_some hrestore (textFeedback_of_backed hbacked) _,
      rfl, ?_⟩
    cases hawaiting : isAwaitingApproval c with
    | false => simp [statusOf]
    | true => simp [statusOf, (draft_of_awaiting hbacked hawaiting).1]

end Service

section Demo

attribute [local instance] asciiTables

theorem restores_storedState (asDicts : Bool) : Restores (storedState asDicts) :=
  fun _ htext => isState_storedState asDicts htext

theorem status_reports_the_run_demo :
    ∃ (s : Service) (c : Snapshot) (response : MigrationStatusResponse), demoPublished s = true ∧
      s.server.checkpoints "run-000000000001" = some c ∧
      getMigrationStatus (storedState true) (some c) "run-000000000001" = .status response := by
  have hdemo : runDemo.any demoPublished = true := by decide +kernel
  obtain ⟨s, hrun, hpublished⟩ := run_of_runDemo hdemo
  rcases status_reports_the_run (restores_storedState true) hrun "run-000000000001" with
    ⟨hnone, -⟩ | ⟨c, response, hc, hstatus, -⟩
  · simp [demoPublished, hnone] at hpublished
  · exact ⟨s, c, response, hpublished, hc, hstatus⟩

end Demo

section Service

variable [UnicodeData] {apiKey : Option String} {validation : Validation} {s s' : Service}
  {happenings later : List Happening} {runId : String} {c c' : Snapshot}
  {restore : GraphState → List (String × PyObj)}

/-! ### Shown and published -/

/-- Where the graph stands from the gate on. -/
def Next.isReview : Next → Bool
  | .node .approvalGate | .paused | .node .prPublish | .finished => true
  | _ => false

/-- From the gate on nothing changes the draft. -/
theorem draft_of_step (hreview : c.next.isReview = true) {i : Input}
    (h : graph.step c i = some c') :
    c'.next.isReview = true ∧ c'.state.prDraft = c.state.prDraft ∧
      c'.state.aggregatedDiffPaths = c.state.aggregatedDiffPaths := by
  cases superstep_of_step h with
  | approvalGate => exact ⟨rfl, rfl, rfl⟩
  | resume _ hpass =>
    refine ⟨?_, ?_, ?_⟩
    · rw [Snapshot.moved_next]
      split <;> rfl
    all_goals cases hpass <;> simp
  | prPublish _ hpass =>
    refine ⟨rfl, ?_, ?_⟩
    all_goals cases hpass <;> simp
  | raised hraising =>
    cases hraising <;> simp_all [Next.isReview]
  | _ hnext => simp_all [Next.isReview]

/-- The run is past its worker, with this draft. -/
def Reviewed (runId : String) (draft : Option PRDraft) (paths : Option (List String))
    (s : Service) : Prop :=
  ∃ job c, s.jobs runId = some job ∧ (job.stage = .atGate ∨ job.stage = .ended) ∧
    s.server.checkpoints runId = some c ∧ c.next.isReview = true ∧
    c.state.prDraft = draft ∧ c.state.aggregatedDiffPaths = paths

namespace Reviewed

variable {draft : Option PRDraft} {paths : Option (List String)} {happening : Happening}

omit [UnicodeData] in
/-- Another run changes. -/
theorem other (h : Reviewed runId draft paths s) {r : String} (hr : r ≠ runId) (server : Server)
    (hserver : server.checkpoints runId = s.server.checkpoints runId) (job : Job) :
    Reviewed runId draft paths ((s.setServer server).setJob r job) := by
  obtain ⟨job', c, hjob, hstage, hc, hkept⟩ := h
  exact ⟨job', c, by simpa [Function.update_of_ne hr.symm] using hjob, hstage,
    hserver.trans hc, hkept⟩

theorem turned (h : Reviewed runId draft paths s) {k : ℕ} {call : DecideCall} {turn : Turn}
    {server : Server} (hturn : TurnTaken s.server k call turn server) :
    Reviewed runId draft paths (s.setServer server) := by
  obtain ⟨job, c, hjob, hstage, hc, hreview, hdraft, hpaths⟩ := h
  by_cases hrun : call.runId = runId
  swap
  · exact ⟨job, c, hjob, hstage, (hturn.checkpoints_of_ne (Ne.symm hrun)).trans hc, hreview,
      hdraft, hpaths⟩
  subst hrun
  cases hturn with
  | resume lock c₁ c' hat hc₁ hstep =>
    cases hc.symm.trans hc₁
    obtain ⟨hreview', hdraft', hpaths'⟩ :=
      draft_of_step (c := { c with next := .paused }) rfl hstep
    exact ⟨job, c', hjob, hstage, by simp, hreview', hdraft'.trans hdraft, hpaths'.trans hpaths⟩
  | drive lock i c₁ c' hat hc₁ hgoing hstep =>
    cases hc.symm.trans hc₁
    obtain ⟨hreview', hdraft', hpaths'⟩ := draft_of_step hreview hstep
    exact ⟨job, c', hjob, hstage, by simp, hreview', hdraft'.trans hdraft, hpaths'.trans hpaths⟩
  | _ => exact ⟨job, c, hjob, hstage, hc, hreview, hdraft, hpaths⟩

theorem step (h : Reviewed runId draft paths s)
    (hstep : Happened apiKey validation s happening s') : Reviewed runId draft paths s' := by
  cases hstep with
  | nothing | called => exact h
  | @submitted _ hex _ request _ _ hnew =>
    have hr : "run-" ++ hex ≠ runId := by
      rintro rfl
      obtain ⟨job, _, hjob, -⟩ := h
      rw [hnew] at hjob
      cases hjob
    exact h.other hr s.server rfl _
  | turned _ hturn => exact h.turned hturn
  | @left _ r job _ hjob =>
    by_cases hr : r = runId
    · subst hr
      obtain ⟨job', c, hjob', -, hc, hkept⟩ := h
      exact ⟨{ job with stage := .ended }, c, by simp, Or.inr rfl, hc, hkept⟩
    · exact h.other hr s.server rfl _
  | @begun r _ _ _ _ job _ hjob hstage | @worked r _ job _ _ hjob hstage =>
    have hr : r ≠ runId := by
      rintro rfl
      obtain ⟨job', _, hjob', hstage', -⟩ := h
      cases hjob.symm.trans hjob'
      simp [hstage] at hstage'
    exact h.other hr _ (by simp [Function.update_of_ne hr.symm]) _
  | @interrupted r i job c c' hjob hstage hc hgate hstep =>
    by_cases hr : r = runId
    · subst hr
      obtain ⟨job', c₁, hjob', -, hc₁, hreview, hdraft, hpaths⟩ := h
      cases hc.symm.trans hc₁
      obtain ⟨hreview', hdraft', hpaths'⟩ := draft_of_step hreview hstep
      exact ⟨{ job with stage := .ended }, c', by simp, Or.inr rfl, by simp, hreview',
        hdraft'.trans hdraft, hpaths'.trans hpaths⟩
    · exact h.other hr _ (by simp [Function.update_of_ne (Ne.symm hr)]) _

end Reviewed

/-- What the endpoint once showed to a reviewer is what is published later, whatever happens in
between. -/
theorem shown_is_published (hrestore : Restores restore)
    (h : (service apiKey validation).Run .empty happenings s) {response : MigrationStatusResponse}
    (hshown : getMigrationStatus restore (s.server.checkpoints runId) runId = .status response)
    {pending : PendingApproval} (hpending : response.pendingApproval = some pending)
    (hlater : (service apiKey validation).Run s later s')
    (hc : s'.server.checkpoints runId = some c) {call : PublishCall}
    (hcall : call ∈ publishCalls c.trace) :
    call.prTitle = pending.title ∧ call.prBody = pending.body ∧
      call.branchName = pending.branchName ∧ call.files.map FileDiff.path = pending.files := by
  cases hc₀ : s.server.checkpoints runId with
  | none =>
    rw [hc₀] at hshown
    cases hshown
  | some c₀ =>
    obtain ⟨payload, -, hbacked⟩ := backed_of_run h hc₀
    rw [hc₀, getMigrationStatus_some hrestore (textFeedback_of_backed hbacked)] at hshown
    cases hshown
    -- the run waits, and its draft is the one that is shown
    obtain ⟨hawaiting, draft, hdraft, rfl⟩ : isAwaitingApproval c₀ = true ∧ ∃ draft,
        c₀.state.prDraft = some draft ∧
        (⟨draft.title, draft.body, draft.branchName, c₀.state.aggregatedDiffPaths.getD []⟩ :
          PendingApproval) = pending := by
      simp only [statusOf] at hpending
      split_ifs at hpending with hawaiting
      obtain ⟨draft, hdraft, heq⟩ := Option.map_eq_some_iff.mp hpending
      exact ⟨hawaiting, draft, hdraft, heq⟩
    have hreviewed : Reviewed runId c₀.state.prDraft c₀.state.aggregatedDiffPaths s := by
      have hreview : c₀.next.isReview = true := by
        unfold isAwaitingApproval at hawaiting
        unfold Next.isReview
        split at hawaiting <;> simp_all
      cases (sound_of_run h).lives runId with
      | absent _ hnone =>
        rw [hnone] at hc₀
        cases hc₀
      | awaiting job hjob hstage => exact ⟨job, c₀, hjob, hstage, hc₀, hreview, rfl, rfl⟩
      | driven _ _ _ c₁ hc₁ hnot =>
        cases hc₀.symm.trans hc₁
        rw [hnot] at hawaiting
        cases hawaiting
      | decided job hjob hstage => exact ⟨job, c₀, hjob, hstage, hc₀, hreview, rfl, rfl⟩
    have hreviewed' : Reviewed runId c₀.state.prDraft c₀.state.aggregatedDiffPaths s' :=
      hlater.invariant (I := Reviewed runId c₀.state.prDraft c₀.state.aggregatedDiffPaths)
        hreviewed fun _ _ _ hs hstep _ => hs.step (happened_of_step hstep)
    obtain ⟨_, c₁, -, -, hc₁, -, hdraft', hpaths'⟩ := hreviewed'
    cases hc.symm.trans hc₁
    obtain ⟨_, -, _, _, _, _, _, d, -, hrun, hshadow, -⟩ := backed_of_run (h.trans hlater) hc
    rw [hshadow.publishCalls_eq] at hcall
    obtain ⟨hown, hmade, -⟩ := publishCall_of_run hrun hcall
    obtain ⟨-, earlier, -, hdrafted, -⟩ :=
      published_of_mem (stage_of_run hrun) (mem_of_publishCalls hcall)
    have hsame : d.state.draft = draft := by
      rw [hshadow.state, hown, hdraft, Option.some.injEq] at hdraft'
      exact hdraft'
    have hfiles : c₀.state.aggregatedDiffPaths = some (call.files.map FileDiff.path) := by
      rw [← hpaths', hshadow.state, hdrafted.paths, hmade]
      rfl
    rw [hfiles, hmade]
    simp [publishCall, hsame]

end Service

section Demo

attribute [local instance] asciiTables

/-- What the endpoint shows of the demo run to a reviewer. -/
def demoPending (s : Service) : Option PendingApproval :=
  match getMigrationStatus (storedState true) (s.server.checkpoints "run-000000000001")
      "run-000000000001" with
  | .status response => response.pendingApproval
  | .httpException _ _ => none

theorem shown_is_published_demo :
    ∃ (pending : PendingApproval) (call : PublishCall), call.prTitle = pending.title ∧
      call.prBody = pending.body ∧ call.files.map FileDiff.path = pending.files ∧
      pending.files = ["app/services/order_service.py"] := by
  have hdemo : ((service (some "key") .unset).exec (fun _ _ _ => True) .empty
      (demoHistory.take 10)).any (fun s => ((demoPending s).any fun pending =>
        decide (pending.files = ["app/services/order_service.py"])) &&
        ((service (some "key") .unset).exec (fun _ _ _ => True) s (demoHistory.drop 10)).any
          demoPublished) = true := by decide +kernel
  obtain ⟨s, hrun, hboth⟩ := DrivenSystem.exists_runWhere_of_exec hdemo
  obtain ⟨hpending, hlater⟩ := Bool.and_eq_true_iff.mp hboth
  obtain ⟨s', hrun', hpublished⟩ := DrivenSystem.exists_runWhere_of_exec hlater
  unfold demoPending at hpending
  split at hpending
  swap
  · cases hpending
  next response hshown =>
  cases hpending' : response.pendingApproval with
  | none => simp [hpending'] at hpending
  | some pending =>
    unfold demoPublished at hpublished
    cases hc : s'.server.checkpoints "run-000000000001" with
    | none => simp [hc] at hpublished
    | some c =>
      rw [hc, Option.any_some] at hpublished
      obtain ⟨call, earlier, htrace⟩ := trace_of_endsPublishing hpublished
      have hcall : call ∈ publishCalls c.trace := by
        simp [htrace, publishCalls, Event.publishCall?]
      obtain ⟨htitle, hbody, -, hfiles⟩ := shown_is_published (restores_storedState true) hrun
        hshown hpending' hrun' hc hcall
      exact ⟨pending, call, htitle, hbody, hfiles, by simpa [hpending'] using hpending⟩

end Demo

end StackMigrate
