import StackMigrate.Properties.Publication

/-!
# The phase in which a run ends

`error_analysis` derives the phase from the verdicts it has just applied one by one; the
router behind it looks at the merged list. The two agree if some retried task can run.
The other exit in the middle of the work is a gate whose two looks at the clock disagree.
-/

namespace StackMigrate

open KeyedList

/-- The phases in which a run may end. -/
def MigrationPhase.isTerminal : MigrationPhase → Bool
  | done | rejected | failed | abortedBudget | needsHuman => true
  | _ => false

/-! ### Verdicts -/

/-- Does this verdict send the task back to the editors? -/
def retries (s : GraphState) (t : MigrationTask) (analysis : ErrorAnalysis) : Bool :=
  !roundCapHit s && analysis.isRetryable && decide (t.retryCount + 1 ≤ t.maxRetries)

/-- Is the id one of a candidate that the answer names? -/
def isBlamed (s : GraphState) (analyses : List ErrorAnalysis) (id : String) : Bool :=
  decide (id ∈ (candidateTasks s).map MigrationTask.id) &&
    decide (id ∈ analyses.map ErrorAnalysis.taskId)

/-- The last verdict about the task is a retry, and everything it depends on has succeeded
and is not blamed by the same answer. -/
def canRunAgain (s : GraphState) (analyses : List ErrorAnalysis) (t : MigrationTask) : Bool :=
  (last ErrorAnalysis.taskId analyses t.id).any (retries s t) &&
    t.dependsOnTaskIds.all fun dep =>
      decide (statusById s.tasks dep = some .succeeded) && !isBlamed s analyses dep

/-- An answer that retries anything retries a task that can run. -/
def RetriesCanRun (s : GraphState) (analyses : List ErrorAnalysis) : Prop :=
  (∃ t ∈ candidateTasks s, ∃ a ∈ analyses, a.taskId = t.id ∧ retries s t a = true) →
    ∃ t ∈ candidateTasks s, canRunAgain s analyses t = true

@[simp] theorem status_blamedTask (capHit : Bool) (analysis : ErrorAnalysis)
    (t : MigrationTask) :
    (blamedTask capHit analysis t).status =
      if (!capHit && analysis.isRetryable && decide (t.retryCount + 1 ≤ t.maxRetries)) = true
      then .retrying else .needsHuman := by
  have hle : t.retryCount + 1 > t.maxRetries ↔ ¬ t.retryCount + 1 ≤ t.maxRetries := by omega
  cases capHit <;> cases hr : analysis.isRetryable <;>
    by_cases h : t.retryCount + 1 ≤ t.maxRetries <;> simp [blamedTask, hr, hle, h]

theorem status_blamedTask_eq_retrying {s : GraphState} {analysis : ErrorAnalysis}
    {t : MigrationTask} :
    (blamedTask (roundCapHit s) analysis t).status = .retrying ↔ retries s t analysis = true := by
  rw [status_blamedTask, retries]
  split_ifs with h
  · simpa using h
  · simpa using h

/-- The last entry that the answer produces for a candidate comes from the last verdict
about it. -/
theorem last_blamedTasks {s : GraphState} (hnd : (s.tasks.map MigrationTask.id).Nodup)
    (capHit : Bool) (analyses : List ErrorAnalysis) {t : MigrationTask}
    (ht : t ∈ candidateTasks s) :
    last MigrationTask.id (blamedTasks capHit (candidateTasks s) analyses) t.id =
      (last ErrorAnalysis.taskId analyses t.id).map fun a => blamedTask capHit a t := by
  have hcand := nodup_candidateTasks hnd
  unfold last blamedTasks
  rw [← List.filterMap_reverse, collect_of_nodup hcand]
  generalize analyses.reverse = verdicts
  induction verdicts with
  | nil => rfl
  | cons a rest ih =>
    rw [lookup_cons, List.filterMap_cons]
    by_cases ha : a.taskId = t.id
    · have hfound : lookup MigrationTask.id (candidateTasks s) a.taskId = some t :=
        ha ▸ lookup_of_mem hcand ht
      have hid : (blamedTask capHit a t).id = t.id := rfl
      rw [if_pos ha, hfound]
      simp only [Option.map_some, lookup_cons, hid, if_true]
    · rw [if_neg ha, ← ih]
      cases hfound : lookup MigrationTask.id (candidateTasks s) a.taskId with
      | none => rfl
      | some t' =>
        have hkey : t'.id = a.taskId := key_of_lookup hfound
        have hid : (blamedTask capHit a t').id = a.taskId := hkey
        simp only [Option.map_some, lookup_cons, hid, if_neg ha]

/-! ### What is ready behind `error_analysis` -/

section Ready

variable {s : GraphState} {new : List MigrationTask}

/-- A replacement leaves the status of a dependency at `SUCCEEDED` only if it was there and
the dependency is not replaced. -/
theorem statusById_replaced (hnd : (s.tasks.map MigrationTask.id).Nodup)
    (hnew : ∀ t' ∈ new, t'.status ≠ .succeeded) {dep : String} :
    statusById (s.tasks.map (replaced new)) dep = some .succeeded ↔
      statusById s.tasks dep = some .succeeded ∧ dep ∉ new.map MigrationTask.id := by
  have hids : (s.tasks.map (replaced new)).map MigrationTask.id =
      s.tasks.map MigrationTask.id := by simp [Function.comp_def]
  rw [statusById_eq_some (hids ▸ hnd), statusById_eq_some hnd]
  constructor
  · rintro ⟨t', ht', rfl, hst⟩
    obtain ⟨t, ht, rfl⟩ := List.mem_map.mp ht'
    rcases replaced_cases new t with ⟨hno, heq⟩ | ⟨t₁, ht₁, -, heq⟩
    · rw [heq] at hst ⊢
      exact ⟨⟨t, ht, rfl, hst⟩, hno⟩
    · rw [heq] at hst
      exact absurd hst (hnew t₁ ht₁)
  · rintro ⟨⟨t, ht, rfl, hst⟩, hno⟩
    have heq := replaced_of_notMem hno
    exact ⟨replaced new t, List.mem_map_of_mem ht, by rw [heq], by rw [heq, hst]⟩

/-- With nothing ready before, a task is ready afterwards only if it was replaced. -/
theorem replaced_of_ready (hnd : (s.tasks.map MigrationTask.id).Nodup)
    (hnew : ∀ t' ∈ new, t'.status ≠ .succeeded) (hidle : getReadyTasks s.tasks = [])
    {t' : MigrationTask} (hready : t' ∈ getReadyTasks (s.tasks.map (replaced new))) :
    ∃ t ∈ s.tasks, last MigrationTask.id new t.id = some t' := by
  obtain ⟨hmem, hopen, hdeps⟩ := mem_getReadyTasks.mp hready
  obtain ⟨t, ht, rfl⟩ := List.mem_map.mp hmem
  refine ⟨t, ht, ?_⟩
  cases hlast : last MigrationTask.id new t.id with
  | some t₁ => simp [replaced, hlast]
  | none =>
    have heq : replaced new t = t := by simp [replaced, hlast]
    rw [heq] at hopen hdeps
    have hnone : t ∉ getReadyTasks s.tasks := by simp [hidle]
    refine absurd (mem_getReadyTasks.mpr ⟨ht, hopen, ?_⟩) hnone
    intro dep hdep
    exact ((statusById_replaced hnd hnew).mp (hdeps dep hdep)).1

end Ready

theorem status_escalate {tasks : List MigrationTask} {t : MigrationTask}
    (h : t ∈ escalate tasks) : t.status = .needsHuman := by
  obtain ⟨t₀, -, rfl⟩ := List.mem_map.mp h
  rfl

theorem status_mem_blamedTasks {s : GraphState} {capHit : Bool} {analyses : List ErrorAnalysis}
    (hnd : (s.tasks.map MigrationTask.id).Nodup) {t : MigrationTask}
    (h : t ∈ blamedTasks capHit (candidateTasks s) analyses) : t.status ≠ .succeeded := by
  obtain ⟨t₀, -, a, -, -, rfl⟩ := (mem_blamedTasks hnd).mp h
  rw [status_blamedTask]
  split_ifs <;> simp

theorem mem_ids_blamedTasks {s : GraphState} (hnd : (s.tasks.map MigrationTask.id).Nodup)
    {capHit : Bool} {analyses : List ErrorAnalysis} {id : String} :
    id ∈ (blamedTasks capHit (candidateTasks s) analyses).map MigrationTask.id ↔
      isBlamed s analyses id = true := by
  simp only [List.mem_map, mem_blamedTasks hnd, isBlamed, Bool.and_eq_true, decide_eq_true_eq]
  constructor
  · rintro ⟨t', ⟨t, ht, a, ha, hid, rfl⟩, rfl⟩
    exact ⟨⟨t, ht, rfl⟩, a, ha, hid⟩
  · rintro ⟨⟨t, ht, rfl⟩, a, ha, hid⟩
    exact ⟨blamedTask capHit a t, ⟨t, ht, a, ha, hid, rfl⟩, rfl⟩

/-- Replacements that close every task they touch leave nothing ready. -/
theorem ready_closed {s : GraphState} {new : List MigrationTask}
    (hnd : (s.tasks.map MigrationTask.id).Nodup) (hidle : getReadyTasks s.tasks = [])
    (hclosed : ∀ t ∈ new, t.status = .needsHuman) :
    getReadyTasks (s.tasks.map (replaced new)) = [] := by
  rw [List.eq_nil_iff_forall_not_mem]
  intro t' hready
  have hnew : ∀ t ∈ new, t.status ≠ .succeeded := by
    intro t ht
    simp [hclosed t ht]
  obtain ⟨t, -, hlast⟩ := replaced_of_ready hnd hnew hidle hready
  have hopen := (mem_getReadyTasks.mp hready).2.1
  rw [MigrationTask.isOpen_iff, hclosed t' (mem_of_last hlast)] at hopen
  rcases hopen with h | h <;> cases h

/-- Escalation alone leaves nothing ready. -/
theorem ready_escalated {s : GraphState} (hnd : (s.tasks.map MigrationTask.id).Nodup)
    (hidle : getReadyTasks s.tasks = []) :
    getReadyTasks (s.tasks.map (replaced (escalate (candidateTasks s)))) = [] :=
  ready_closed hnd hidle fun _ ht => status_escalate ht

/-- Behind an answer, work is ready exactly if some candidate can run again. -/
theorem ready_blamed_iff {s : GraphState} (hnd : (s.tasks.map MigrationTask.id).Nodup)
    (hidle : getReadyTasks s.tasks = []) (analyses : List ErrorAnalysis) :
    getReadyTasks (s.tasks.map
        (replaced (blamedTasks (roundCapHit s) (candidateTasks s) analyses))) ≠ [] ↔
      ∃ t ∈ candidateTasks s, canRunAgain s analyses t = true := by
  have hnew : ∀ t ∈ blamedTasks (roundCapHit s) (candidateTasks s) analyses,
      t.status ≠ .succeeded := fun t ht => status_mem_blamedTasks hnd ht
  constructor
  · intro hne
    obtain ⟨t', hready⟩ := List.exists_mem_of_ne_nil _ hne
    obtain ⟨t, ht, hlast⟩ := replaced_of_ready hnd hnew hidle hready
    obtain ⟨-, hopen, hdeps⟩ := mem_getReadyTasks.mp hready
    obtain ⟨t₀, ht₀, a₀, -, -, heq⟩ := (mem_blamedTasks hnd).mp (mem_of_last hlast)
    have hid : t₀.id = t.id := by
      have hkey := key_of_last hlast
      rw [heq] at hkey
      exact hkey
    have hsame : t₀ = t := eq_of_id_eq hnd (mem_candidateTasks ht₀).1 ht hid
    subst hsame
    rw [last_blamedTasks hnd _ _ ht₀, Option.map_eq_some_iff] at hlast
    obtain ⟨a, hlastVerdict, rfl⟩ := hlast
    refine ⟨t₀, ht₀, ?_⟩
    have hretry : retries s t₀ a = true := by
      rw [← status_blamedTask_eq_retrying]
      rcases MigrationTask.isOpen_iff.mp hopen with h | h
      · rw [status_blamedTask] at h
        split_ifs at h
      · exact h
    simp only [canRunAgain, hlastVerdict, Option.any_some, hretry, Bool.true_and, List.all_eq_true,
      Bool.and_eq_true, decide_eq_true_eq, Bool.not_eq_true']
    intro dep hdep
    have hboth := (statusById_replaced hnd hnew).mp (hdeps dep hdep)
    rw [mem_ids_blamedTasks hnd, Bool.not_eq_true] at hboth
    exact hboth
  · rintro ⟨t, ht, hcan⟩
    simp only [canRunAgain, Bool.and_eq_true, Option.any_eq_true, List.all_eq_true,
      decide_eq_true_eq, Bool.not_eq_true'] at hcan
    obtain ⟨⟨a, hlastVerdict, hretry⟩, hdeps⟩ := hcan
    have hreplaced : replaced (blamedTasks (roundCapHit s) (candidateTasks s) analyses) t =
        blamedTask (roundCapHit s) a t := by
      rw [replaced, last_blamedTasks hnd _ _ ht, hlastVerdict]
      rfl
    have hretrying := status_blamedTask_eq_retrying.mpr hretry
    refine List.ne_nil_of_mem (a := blamedTask (roundCapHit s) a t) ?_
    refine mem_getReadyTasks.mpr ⟨?_, ?_, ?_⟩
    · exact List.mem_map.mpr ⟨t, (mem_candidateTasks ht).1, hreplaced⟩
    · exact MigrationTask.isOpen_iff.mpr (Or.inr hretrying)
    · intro dep hdep
      refine (statusById_replaced hnd hnew).mpr ?_
      rw [mem_ids_blamedTasks hnd, Bool.not_eq_true]
      exact hdeps dep hdep

/-! ### The edge behind `error_analysis` -/

/-- The verdicts of the answer; none when the call raised or could not be parsed. -/
def AnalysisInput.analyses (answer : AnalysisInput) : List ErrorAnalysis :=
  match answer.outcome with
  | .responded (some result) _ _ _ => result.analyses
  | _ => []

/-- There is a test result to analyse, and budget to do so. -/
def analyzerAsked (s : GraphState) (answer : AnalysisInput) : Bool :=
  s.fullSuiteResult.isSome && !s.budget.isExhausted answer.now

/-- Either the run gives up, with nothing ready, or it goes back to editing because the
answer retries some candidate. -/
theorem phase_of_analysis {s : GraphState} {answer : AnalysisInput} {event : Event} {u : Update}
    (hnd : (s.tasks.map MigrationTask.id).Nodup) (hidle : getReadyTasks s.tasks = [])
    (hpass : AnalysisPass s answer event u) :
    ((s.apply u).phase = some .needsHuman ∧ getReadyTasks (s.apply u).tasks = [] ∧
        (analyzerAsked s answer = true → RetriesCanRun s answer.analyses)) ∨
      ((s.apply u).phase = some .editing ∧ analyzerAsked s answer = true ∧
        (RetriesCanRun s answer.analyses ↔ getReadyTasks (s.apply u).tasks ≠ [])) := by
  have hnoVerdict : answer.analyses = [] → RetriesCanRun s answer.analyses := by
    rintro hnil ⟨t, -, a, ha, -⟩
    rw [hnil] at ha
    cases ha
  have htasks := tasks_apply_replaced hnd (tasks_analysis_moved hnd hpass)
  cases hpass with
  | nothingToBlame log hnone =>
    refine Or.inl ⟨by simp, by simpa using hidle, ?_⟩
    intro hasked
    rcases hnone with hnone | hnone
    · simp [analyzerAsked, hnone] at hasked
    · rintro ⟨t, ht, -⟩
      rw [hnone] at ht
      cases ht
  | exhausted log hexhausted =>
    refine Or.inl ⟨by simp, ?_, by simp [analyzerAsked, hexhausted]⟩
    rw [htasks]
    exact ready_escalated hnd hidle
  | callFailed log exc _ houtcome =>
    refine Or.inl ⟨by simp, ?_, fun _ => hnoVerdict (by simp [AnalysisInput.analyses, houtcome])⟩
    rw [htasks]
    exact ready_escalated hnd hidle
  | answered log result costUsd _ _ hsuite hleft houtcome =>
    have hanalyses : answer.analyses = result.analyses := by simp [AnalysisInput.analyses, houtcome]
    have hasked : analyzerAsked s answer = true := by
      simp [analyzerAsked, hleft, Option.isSome_iff_ne_none, hsuite]
    have hiff := ready_blamed_iff hnd hidle result.analyses
    set updated := blamedTasks (roundCapHit s) (candidateTasks s) result.analyses with hupdated
    have hwritten : (if updated.isEmpty then none else some updated).getD [] = updated := by
      cases updated <;> rfl
    simp only [hwritten] at htasks
    have hretrying : (updated.any fun t => decide (t.status = .retrying)) = true ↔
        ∃ t ∈ candidateTasks s, ∃ a ∈ answer.analyses, a.taskId = t.id ∧ retries s t a = true := by
      simp only [List.any_eq_true, decide_eq_true_eq, hupdated, mem_blamedTasks hnd, hanalyses]
      constructor
      · rintro ⟨-, ⟨t, ht, a, ha, hid, rfl⟩, hst⟩
        exact ⟨t, ht, a, ha, hid, status_blamedTask_eq_retrying.mp hst⟩
      · rintro ⟨t, ht, a, ha, hid, hretry⟩
        exact ⟨_, ⟨t, ht, a, ha, hid, rfl⟩, status_blamedTask_eq_retrying.mpr hretry⟩
    by_cases hany : (updated.any fun t => decide (t.status = .retrying)) = true
    · refine Or.inr ⟨by simp [hany], hasked, ?_⟩
      rw [htasks, hiff, RetriesCanRun, hanalyses]
      rw [hretrying, hanalyses] at hany
      exact ⟨fun h => h hany, fun h _ => h⟩
    · refine Or.inl ⟨by simp [hany], ?_, fun _ hsome => absurd (hretrying.mpr hsome) hany⟩
      rw [htasks]
      by_contra hready
      obtain ⟨t, ht, hcan⟩ := hiff.mp hready
      simp only [canRunAgain, Bool.and_eq_true, Option.any_eq_true] at hcan
      obtain ⟨⟨a, hlastVerdict, hretry⟩, -⟩ := hcan
      refine hany (hretrying.mpr ⟨t, ht, a, ?_, key_of_last hlastVerdict, hretry⟩)
      exact hanalyses ▸ mem_of_last hlastVerdict

/-! ### Ending in the middle of the work -/

/-- Tasks are ready, and the two looks of the gate at the clock fall on either side of the
limit: the gate lets the tasks pass and `affordable_calls` lets none of them start. -/
def Crosses (s : GraphState) (gate : GateReadings) : Prop :=
  getReadyTasks s.tasks ≠ [] ∧ s.budget.isExhausted gate.first = false ∧
    s.budget.isExhausted gate.second = true

/-- The gate of the step, which is handed the merged state, does not cross the limit, and the
answer of the step can be acted upon. -/
def PhaseSound (c : Snapshot) (i : Input) (c' : Snapshot) : Prop :=
  match i with
  | .synthesis gate | .budgetReconcile gate => ¬ Crosses c'.state gate
  | .errorAnalysis answer gate =>
    ¬ Crosses c'.state gate ∧
      (analyzerAsked c.state answer = true → RetriesCanRun c.state answer.analyses)
  | _ => True

/-- Editors run, and are joined, in phase `EDITING`. -/
structure InEditing (s : GraphState) (next : Next) : Prop where
  wave : ∀ sends, next = .editors sends → s.phase = some .editing
  join : next = .node .budgetReconcile → s.phase = some .editing

theorem inEditing_of_dispatched {noReadyTasks next : Next} {gate : GateReadings} {s : GraphState}
    (hedge : noReadyTasks = .node .sandboxTest ∨ noReadyTasks = .finished)
    (h : Dispatched noReadyTasks gate s next)
    (hphase : getReadyTasks s.tasks ≠ [] → s.phase = some .editing) : InEditing s next := by
  cases h with
  | nothingReady => rcases hedge with rfl | rfl <;> exact ⟨by simp, by simp⟩
  | exhausted => exact ⟨by simp, by simp⟩
  | crossed => exact ⟨by simp, by simp⟩
  | wave hready => exact ⟨fun _ _ => hphase hready, by simp⟩

section Steps

variable [UnicodeData] {c c' : Snapshot} {i : Input}

omit [UnicodeData] in
/-- Where tasks are ready behind synthesis, they have just been planned. -/
theorem editing_of_synthesis {u : Update} (hp : Placed c.state c.next)
    (hnext : c.next = .node .synthesis) (hpass : SynthesisPass c.state u)
    (hready : getReadyTasks (c.state.apply u).tasks ≠ []) :
    (c.state.apply u).phase = some .editing := by
  cases hpass with
  | noPlan =>
    have hnone : getReadyTasks c.state.tasks = [] := by
      rw [hp.unplanned (Or.inr hnext)]
      rfl
    exact absurd hnone hready
  | planned => rfl

omit [UnicodeData] in
theorem editing_of_analysis {answer : AnalysisInput} {event : Event} {u : Update}
    (hp : Placed c.state c.next) (hnext : c.next = .node .errorAnalysis)
    (hpass : AnalysisPass c.state answer event u)
    (hready : getReadyTasks (c.state.apply u).tasks ≠ []) :
    (c.state.apply u).phase = some .editing := by
  rcases phase_of_analysis hp.nodup (hp.idle (Or.inr hnext)) hpass with ⟨-, hnone, -⟩ | ⟨h, -, -⟩
  · exact absurd hnone hready
  · exact h

theorem inEditing_superstep (hp : Placed c.state c.next) (he : InEditing c.state c.next)
    (h : Superstep c i c') : InEditing c'.state c'.next := by
  cases h with
  | raised => exact ⟨by simp, by simp⟩
  | comprehension =>
    refine ⟨?_, ?_⟩ <;>
      · simp only [Snapshot.moved_next, routeAfterComprehension]
        split <;> simp
  | synthesis hnext hpass hroute =>
    exact inEditing_of_dispatched (Or.inl rfl) (dispatched_of_dispatch hroute)
      (editing_of_synthesis hp hnext hpass)
  | wave hnext _ hupdates =>
    obtain ⟨log, hlog⟩ := applyAll_wave hp.nodup hupdates
    refine ⟨by simp, fun _ => ?_⟩
    rw [Snapshot.moved_state, hlog]
    exact he.wave _ hnext
  | budgetReconcile hnext hroute =>
    exact inEditing_of_dispatched (Or.inl rfl) (dispatched_of_dispatch hroute)
      (fun _ => he.join hnext)
  | sandboxTest =>
    refine ⟨by simp, ?_⟩
    simp only [Snapshot.moved_next]
    split <;> simp
  | errorAnalysis hnext hpass hroute =>
    exact inEditing_of_dispatched (Or.inr rfl) (dispatched_of_dispatch hroute)
      (editing_of_analysis hp hnext hpass)
  | aggregate =>
    refine ⟨?_, ?_⟩ <;>
      · simp only [Snapshot.moved_next, routeAfterAggregate]
        repeat' split
        all_goals simp
  | requestApproval => exact ⟨by simp, by simp⟩
  | approvalGate => exact ⟨by simp, by simp⟩
  | resume => refine ⟨?_, ?_⟩ <;> · simp only [Snapshot.moved_next]; split <;> simp
  | prPublish => exact ⟨by simp, by simp⟩
  | budgetAbort => exact ⟨by simp, by simp⟩

/-- The run has reached `END` in phase `EDITING`. -/
def StoppedShort (c : Snapshot) : Prop :=
  c.next = .finished ∧ c.state.phase = some .editing

/-- The run has not ended, or has ended in a terminal phase. -/
def EndsWell (c : Snapshot) : Prop :=
  c.next = .finished → ∃ phase, c.state.phase = some phase ∧ phase.isTerminal = true

omit [UnicodeData] in
/-- A gate stops a run short exactly if it crosses the limit. -/
theorem crosses_of_dispatched {noReadyTasks next : Next} {gate : GateReadings} {s : GraphState}
    (h : Dispatched noReadyTasks gate s next) :
    (¬ Crosses s gate ∧ (next = .finished → next = noReadyTasks ∧ getReadyTasks s.tasks = [])) ∨
      (Crosses s gate ∧ next = .finished) := by
  cases h with
  | nothingReady hready => exact Or.inl ⟨fun hcross => hcross.1 hready, fun _ => ⟨rfl, hready⟩⟩
  | exhausted _ hfirst =>
    refine Or.inl ⟨?_, by simp⟩
    rintro ⟨-, hleft, -⟩
    rw [hfirst] at hleft
    cases hleft
  | crossed hready hfirst hsecond => exact Or.inr ⟨⟨hready, hfirst, hsecond⟩, rfl⟩
  | wave _ _ hsecond =>
    refine Or.inl ⟨?_, by simp⟩
    rintro ⟨-, -, hrunOut⟩
    rw [hsecond] at hrunOut
    cases hrunOut

omit [UnicodeData] in
/-- Whether the gate of a step behind which editors are due stops the run short. -/
theorem phase_of_gate {noReadyTasks next : Next} {gate : GateReadings} {s : GraphState}
    (h : Dispatched noReadyTasks gate s next) (hedge : noReadyTasks ≠ .finished)
    (hphase : getReadyTasks s.tasks ≠ [] → s.phase = some .editing) :
    (¬ Crosses s gate ∧ next ≠ .finished) ∨
      (Crosses s gate ∧ next = .finished ∧ s.phase = some .editing) := by
  rcases crosses_of_dispatched h with ⟨hno, hend⟩ | ⟨hcross, hend⟩
  · refine Or.inl ⟨hno, fun hfinished => hedge ?_⟩
    rw [← (hend hfinished).1]
    exact hfinished
  · exact Or.inr ⟨hcross, hend, hphase hcross.1⟩

omit [UnicodeData] in
/-- Behind an analysis the run ends well, stops short, or goes on. -/
theorem phase_after_analysis {answer : AnalysisInput} {gate : GateReadings} {event : Event}
    {u : Update} {next : Next} (hp : Placed c.state c.next) (hnext : c.next = .node .errorAnalysis)
    (hpass : AnalysisPass c.state answer event u)
    (hroute : Dispatched .finished gate (c.state.apply u) next) :
    (¬ Crosses (c.state.apply u) gate ∧
        (analyzerAsked c.state answer = true → RetriesCanRun c.state answer.analyses) ∧
        (next = .finished → (c.state.apply u).phase = some .needsHuman)) ∨
      (¬ (¬ Crosses (c.state.apply u) gate ∧
          (analyzerAsked c.state answer = true → RetriesCanRun c.state answer.analyses)) ∧
        next = .finished ∧ (c.state.apply u).phase = some .editing) := by
  have hidle := hp.idle (Or.inr hnext)
  rcases crosses_of_dispatched hroute with ⟨hno, hend⟩ | ⟨hcross, hend⟩
  · rcases phase_of_analysis hp.nodup hidle hpass with
      ⟨hneeds, -, hcan⟩ | ⟨hediting, hasked, hiff⟩
    · exact Or.inl ⟨hno, hcan, fun _ => hneeds⟩
    · by_cases hcan : RetriesCanRun c.state answer.analyses
      · -- the retried task is ready, so the edge does not end the run
        refine Or.inl ⟨hno, fun _ => hcan, fun hfinished => ?_⟩
        exact absurd (hend hfinished).2 (hiff.mp hcan)
      · have hnone : getReadyTasks (c.state.apply u).tasks = [] := by
          by_contra hready
          exact hcan (hiff.mpr hready)
        refine Or.inr ⟨fun hsound => hcan (hsound.2 hasked), ?_, hediting⟩
        cases hroute with
        | nothingReady => rfl
        | exhausted hready | crossed hready | wave hready => exact absurd hnone hready
  · exact Or.inr ⟨fun hsound => hsound.1 hcross, hend, editing_of_analysis hp hnext hpass hcross.1⟩

theorem phase_of_aggregate {u : Update} (hpass : AggregatePass c.state u)
    (hend : routeAfterAggregate (c.state.apply u) = .finished) :
    (c.state.apply u).phase = some .failed := by
  cases hpass with
  | refused => rfl
  | drafted =>
    simp only [routeAfterAggregate, GraphState.apply_prDraft, Option.some_or, Option.isNone_some,
      Bool.false_eq_true, if_false] at hend
    split at hend <;> cases hend

omit [UnicodeData] in
theorem phase_of_decision {decision : Json} {u : Update} (hpass : DecisionPass decision u)
    (hrejected : routeAfterApproval (c.state.apply u) = false) :
    (c.state.apply u).phase = some .rejected := by
  cases hpass with
  | approved => simp [routeAfterApproval] at hrejected
  | rejected => rfl

omit [UnicodeData] in
theorem phase_of_publish {outcome : Except String PublishedPR} {branch : PublishOutcome}
    {u : Update} (hdraft : c.state.prDraft.isSome) (hpass : PublishPass c.state outcome branch u) :
    (c.state.apply u).phase = some .done ∨ (c.state.apply u).phase = some .failed := by
  cases hpass with
  | noDraft hnone =>
    rw [hnone] at hdraft
    cases hdraft
  | noTargetRepo | published => exact Or.inl rfl
  | refused | failed => exact Or.inr rfl

/-- One superstep: it is sound and the run has not ended badly, or it is not and the run
stops short, or it raised. -/
theorem phase_superstep (hp : Placed c.state c.next) (hs : Stage c.state c.trace c.next)
    (he : InEditing c.state c.next) (h : Superstep c i c') :
    (PhaseSound c i c' ∧ EndsWell c') ∨ (¬ PhaseSound c i c' ∧ StoppedShort c') ∨
      ∃ exc, c'.next = .raised exc := by
  cases h with
  | raised => exact Or.inr (Or.inr ⟨_, rfl⟩)
  | comprehension =>
    refine Or.inl ⟨trivial, ?_⟩
    intro hend
    simp only [Snapshot.moved_next, routeAfterComprehension] at hend
    split at hend <;> cases hend
  | synthesis hnext hpass hroute =>
    rcases phase_of_gate (dispatched_of_dispatch hroute) (by simp)
      (editing_of_synthesis hp hnext hpass) with ⟨hno, hgoes⟩ | ⟨hcross, hend, hphase⟩
    · exact Or.inl ⟨hno, fun hend => absurd hend hgoes⟩
    · exact Or.inr (Or.inl ⟨fun hno => hno hcross, hend, hphase⟩)
  | wave => exact Or.inl ⟨trivial, by simp [EndsWell]⟩
  | budgetReconcile hnext hroute =>
    rcases phase_of_gate (dispatched_of_dispatch hroute) (by simp) (fun _ => he.join hnext) with
      ⟨hno, hgoes⟩ | ⟨hcross, hend, hphase⟩
    · exact Or.inl ⟨hno, fun hend => absurd hend hgoes⟩
    · exact Or.inr (Or.inl ⟨fun hno => hno hcross, hend, hphase⟩)
  | sandboxTest =>
    refine Or.inl ⟨trivial, ?_⟩
    intro hend
    simp only [Snapshot.moved_next] at hend
    split at hend <;> cases hend
  | errorAnalysis hnext hpass hroute =>
    rcases phase_after_analysis hp hnext hpass (dispatched_of_dispatch hroute) with
      ⟨hno, hcan, hphase⟩ | ⟨hunsound, hend, hphase⟩
    · exact Or.inl ⟨⟨hno, hcan⟩, fun hend => ⟨_, hphase hend, rfl⟩⟩
    · exact Or.inr (Or.inl ⟨hunsound, hend, hphase⟩)
  | aggregate _ hpass =>
    exact Or.inl ⟨trivial, fun hend => ⟨_, phase_of_aggregate hpass hend, rfl⟩⟩
  | requestApproval => exact Or.inl ⟨trivial, by simp [EndsWell]⟩
  | approvalGate => exact Or.inl ⟨trivial, by simp [EndsWell]⟩
  | resume _ hpass =>
    refine Or.inl ⟨trivial, ?_⟩
    intro hend
    rw [Snapshot.moved_next] at hend
    split at hend
    · cases hend
    · next hroute => exact ⟨_, phase_of_decision hpass (eq_false_of_ne_true hroute), rfl⟩
  | prPublish hnext hpass =>
    rw [hnext] at hs
    refine Or.inl ⟨trivial, fun _ => ?_⟩
    rcases phase_of_publish hs.1.draft hpass with hphase | hphase <;> exact ⟨_, hphase, rfl⟩
  | budgetAbort _ hu =>
    cases hu
    exact Or.inl ⟨trivial, fun _ => ⟨_, rfl, rfl⟩⟩

end Steps

section Runs

variable [UnicodeData] {config : MigrationRunConfig} {limits : BudgetLimits} {maxRetryRounds : ℤ}
  {startedAt : ℚ} {inputs : List Input} {c : Snapshot}

/-- The run has stopped in phase `EDITING`, or because a node raised. -/
def HasStopped (c : Snapshot) : Prop := StoppedShort c ∨ ∃ exc, c.next = .raised exc

/-- What is known wherever the graph stands. -/
structure Standing (c : Snapshot) : Prop where
  placed : Placed c.state c.next
  stage : Stage c.state c.trace c.next
  editing : InEditing c.state c.next

theorem standing_initial : Standing (initial config limits maxRetryRounds startedAt) :=
  ⟨placed_initial _ _ _ _, ⟨by simp [Unreviewed, initial], rfl, rfl⟩, ⟨by simp [initial],
    by simp [initial]⟩⟩

theorem Standing.superstep {c c' : Snapshot} {i : Input} (hc : Standing c)
    (h : Superstep c i c') : Standing c' :=
  ⟨placed_superstep hc.placed h, stage_superstep hc.placed hc.stage h,
    inEditing_superstep hc.placed hc.editing h⟩

/-- The end of a run is well formed as long as every step is sound. -/
theorem endsWell_of_run
    (hrun : graph.RunWhere PhaseSound (initial config limits maxRetryRounds startedAt) inputs c) :
    EndsWell c := by
  have hboth : Standing c ∧ EndsWell c := by
    refine hrun.invariant (I := fun c => Standing c ∧ EndsWell c) ?_ ?_
    · exact ⟨standing_initial, by simp [EndsWell, initial]⟩
    · rintro c i c' ⟨hc, -⟩ hstep hsound
      have h := superstep_of_step hstep
      refine ⟨hc.superstep h, ?_⟩
      rcases phase_superstep hc.placed hc.stage hc.editing h with
        ⟨-, hends⟩ | ⟨hunsound, -⟩ | ⟨exc, hraised⟩
      · exact hends
      · exact absurd hsound hunsound
      · intro hend
        rw [hraised] at hend
        cases hend
  exact hboth.2

theorem sound_or_hasStopped
    (hrun : graph.Run (initial config limits maxRetryRounds startedAt) inputs c) :
    graph.RunWhere PhaseSound (initial config limits maxRetryRounds startedAt) inputs c ∨
      HasStopped c := by
  have hboth : Standing c ∧ (graph.RunWhere PhaseSound
      (initial config limits maxRetryRounds startedAt) inputs c ∨ HasStopped c) := by
    refine DrivenSystem.Run.runWhere_or (I := Standing) hrun standing_initial ?_ ?_ ?_
    · intro c i c' hc hstep
      exact hc.superstep (superstep_of_step hstep)
    · intro c i c' hc hstep hunsound
      rcases phase_superstep hc.placed hc.stage hc.editing (superstep_of_step hstep) with
        ⟨hsound, -⟩ | ⟨-, hstopped⟩ | hraised
      · exact absurd hsound hunsound
      · exact Or.inl hstopped
      · exact Or.inr hraised
    · intro c i c' _ hstep hstopped
      have h := superstep_of_step hstep
      rcases hstopped with hstopped | ⟨exc, hraised⟩
      · exact absurd hstopped.1 (next_ne_finished h)
      · exact absurd hraised (next_ne_raised h)
  exact hboth.2

/-- A finished run reports a terminal phase exactly if no gate crossed the wall-clock limit
with work at hand, and every answer of the analyzer that retries a task retries one
that can run. -/
theorem terminal_phase_iff
    (hrun : graph.Run (initial config limits maxRetryRounds startedAt) inputs c)
    (hend : c.next = .finished) :
    (∃ phase, c.state.phase = some phase ∧ phase.isTerminal = true) ↔
      graph.RunWhere PhaseSound (initial config limits maxRetryRounds startedAt) inputs c := by
  constructor
  · rintro ⟨phase, hphase, hterminal⟩
    rcases sound_or_hasStopped hrun with hsound | ⟨-, hediting⟩ | ⟨exc, hraised⟩
    · exact hsound
    · rw [hphase, Option.some.injEq] at hediting
      rw [hediting] at hterminal
      cases hterminal
    · rw [hend] at hraised
      cases hraised
  · intro hsound
    exact endsWell_of_run hsound hend

end Runs

section Stuck

attribute [local instance] asciiTables

/-- The suite fails. The analyzer gives up on the stock service and sends the order service,
which needs it, back to the editors. -/
def blockedRetryRun : List Input :=
  planServices [serviceFile "OrderService" ["StockService"], serviceFile "StockService" []] ++
    [.editors [(0, writesAt 0 "app/services/stock_service.py")], .budgetReconcile (gateAt 0),
      .editors [(0, writesAt 0 "app/services/order_service.py")], .budgetReconcile (gateAt 0),
      suite .failed,
      .errorAnalysis
        ⟨0, .responded (some
          { analyses := [⟨"task::app_services_stock_service_py", false⟩,
              ⟨"task::app_services_order_service_py", true⟩] }) (1 / 100)⟩ (gateAt 0)]

theorem run_ends_in_editing :
    ∃ c : Snapshot, graph.Run (initial unattendedConfig demoLimits 5 0) blockedRetryRun c ∧
      c.next = .finished ∧ c.state.phase = some .editing := by
  have hreplay : (replay (initial unattendedConfig demoLimits 5 0) blockedRetryRun).any
      (fun c => c.next.isFinished && decide (c.state.phase = some .editing)) = true := by
    decide +kernel
  obtain ⟨c, hrun, hend⟩ := exists_run_of_replay hreplay
  simp only [Bool.and_eq_true, decide_eq_true_eq, Next.isFinished_iff] at hend
  exact ⟨c, hrun, hend⟩

theorem terminal_phase_iff_approvedRun :
    ∃ c : Snapshot, c.next = .finished ∧ c.state.phase = some .done ∧
      graph.RunWhere PhaseSound (initial demoConfig demoLimits 5 0) approvedRun c := by
  have hreplay : (replay (initial demoConfig demoLimits 5 0) approvedRun).any
      (fun c => c.next.isFinished && decide (c.state.phase = some .done)) = true := by
    decide +kernel
  obtain ⟨c, hrun, hend⟩ := exists_run_of_replay hreplay
  simp only [Bool.and_eq_true, decide_eq_true_eq, Next.isFinished_iff] at hend
  exact ⟨c, hend.1, hend.2, (terminal_phase_iff hrun hend.1).mp ⟨_, hend.2, rfl⟩⟩

end Stuck

end StackMigrate
