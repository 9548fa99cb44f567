import StackMigrate.Graph.Loop
import StackMigrate.Graph.Replay
import StackMigrate.Properties.TerminalPhase

/-!
# The code of the tasks that succeeded

Statuses are upserted and results are appended, by different nodes. What couples them: a task
only becomes SUCCEEDED together with a result, and the latest result of a task is the one of
its latest successful call.
-/

namespace StackMigrate

open KeyedList

/-! ### Successful calls on record -/

/-- What the branch generated for the task with this id. -/
def BranchRecord.resultFor (id : String) (r : BranchRecord) : Option EditorResult :=
  match r.outcome with
  | .succeeded result _ => if r.task.id = id then some result else none
  | _ => none

/-- The result of the most recent successful editor call for a task. -/
def lastSuccess (trace : List Event) (id : String) : Option EditorResult :=
  (trace.flatMap Event.branches).findSome? (BranchRecord.resultFor id)

/-- The result of a branch carries the id of its task. -/
def BranchRecord.Tagged (r : BranchRecord) : Prop :=
  ∀ result ∈ r.results, result.taskId = r.task.id

theorem tagged_of_mem_runWave {branches : List (Send × BranchInput)} {r : BranchRecord}
    (h : r ∈ (runWave branches).2) : r.Tagged := by
  rw [records_runWave, List.mem_map] at h
  obtain ⟨b, -, rfl⟩ := h
  have hpass := editorNode_pass b.1 b.2
  generalize editorNode b.1 b.2 = outcome at hpass ⊢
  cases hpass with
  | succeeded result generated costUsd _ _ _ _ hid =>
    intro result' hresult
    rw [BranchRecord.results, List.mem_singleton] at hresult
    rw [hresult, hid]
  | _ => simp [BranchRecord.Tagged, BranchRecord.results]

theorem last_results {r : BranchRecord} (h : r.Tagged) (id : String) :
    last EditorResult.taskId r.results id = r.resultFor id := by
  cases hout : r.outcome with
  | succeeded result costUsd =>
    have hid : result.taskId = r.task.id := h result (by simp [BranchRecord.results, hout])
    simp [BranchRecord.results, BranchRecord.resultFor, hout, last, hid, lookup]
  | _ => simp [BranchRecord.results, BranchRecord.resultFor, hout, last, lookup]

theorem id_of_resultFor {r : BranchRecord} {id : String} {result : EditorResult}
    (h : r.resultFor id = some result) : r.task.id = id := by
  unfold BranchRecord.resultFor at h
  split at h
  · split_ifs at h with hid
    exact hid
  · cases h

/-- A wave holds one branch a task, so it does not matter from which end it is searched. -/
theorem last_results_wave {records : List BranchRecord}
    (hnd : (records.map fun r => r.task.id).Nodup) (htagged : ∀ r ∈ records, r.Tagged)
    (id : String) :
    last EditorResult.taskId (records.flatMap BranchRecord.results) id =
      records.findSome? (BranchRecord.resultFor id) := by
  induction records with
  | nil => rfl
  | cons r rest ih =>
    rw [List.map_cons, List.nodup_cons] at hnd
    rw [List.flatMap_cons, last_append, ih hnd.2 fun r' h => htagged r' (List.mem_cons_of_mem _ h),
      last_results (htagged r List.mem_cons_self), List.findSome?_cons]
    cases hr : r.resultFor id with
    | none => simp
    | some result =>
      have hrest : rest.findSome? (BranchRecord.resultFor id) = none := by
        rw [List.findSome?_eq_none_iff]
        intro r' hr'
        cases hfound : r'.resultFor id with
        | none => rfl
        | some result' =>
          refine absurd (List.mem_map.mpr ⟨r', hr', ?_⟩) hnd.1
          rw [id_of_resultFor hfound, id_of_resultFor hr]
      rw [hrest]
      rfl

theorem lastSuccess_cons_wave (records : List BranchRecord) (trace : List Event) (id : String) :
    lastSuccess (.wave records :: trace) id =
      (records.findSome? (BranchRecord.resultFor id)).or (lastSuccess trace id) := by
  simp [lastSuccess, Event.branches, List.findSome?_append]

theorem lastSuccess_cons_of_branches {e : Event} (h : e.branches = []) (trace : List Event)
    (id : String) : lastSuccess (e :: trace) id = lastSuccess trace id := by
  simp [lastSuccess, h]

/-! ### The coupling -/

/-- Statuses and results agree. -/
structure Coupled (c : Snapshot) : Prop where
  newest : ∀ id, last EditorResult.taskId c.state.editorResults id = lastSuccess c.trace id
  coded : ∀ t ∈ c.state.tasks, t.status = .succeeded →
    t.id ∈ c.state.editorResults.map EditorResult.taskId

theorem succeeded_of_status_after {r : BranchRecord} (h : r.after.status = .succeeded)
    (hback : ∀ costUsd, r.outcome ≠ .crashed costUsd) :
    ∃ result costUsd, r.outcome = .succeeded result costUsd := by
  unfold BranchRecord.after at h
  split at h
  · cases h
  · simp only [failedTask] at h
    split at h <;> cases h
  · next result costUsd hout => exact ⟨result, costUsd, hout⟩
  · next costUsd hout => exact absurd hout (hback costUsd)

section Steps

variable [UnicodeData] {c c' : Snapshot} {i : Input}

/-- A step beside the editors neither adds results nor makes a task succeed. -/
theorem results_of_not_editors (hnext : ∀ sends, c.next ≠ .editors sends)
    (hp : Placed c.state c.next) (h : Superstep c i c') :
    c'.state.editorResults = c.state.editorResults ∧
      ∀ t ∈ c'.state.tasks, t.status = .succeeded → t ∈ c.state.tasks := by
  have hquiet : ∀ u : Update, u.editorResults = [] →
      (∀ new, u.tasks = some new → ∀ t ∈ new, t.status ≠ .succeeded) →
      (c.state.apply u).editorResults = c.state.editorResults ∧
        ∀ t ∈ (c.state.apply u).tasks, t.status = .succeeded → t ∈ c.state.tasks := by
    intro u hresults hnew
    refine ⟨by simp [hresults], ?_⟩
    intro t ht hst
    rw [GraphState.apply_tasks] at ht
    cases htasks : u.tasks with
    | none => simpa [htasks] using ht
    | some new =>
      rw [htasks, Option.elim_some] at ht
      rcases mem_of_mem_mergeTaskLists ht with ht | ht
      · exact ht
      · exact absurd hst (hnew new htasks t ht)
  cases h with
  | raised => exact ⟨rfl, fun t ht _ => ht⟩
  | wave hsends => exact absurd hsends (hnext _)
  | comprehension _ hpass | sandboxTest _ hpass | aggregate _ hpass | resume _ hpass
  | prPublish _ hpass =>
    refine hquiet _ ?_ ?_
    · cases hpass <;> rfl
    · cases hpass <;> simp
  | synthesis _ hpass =>
    cases hpass with
    | noPlan => exact hquiet _ rfl (by simp)
    | planned =>
      refine hquiet _ rfl ?_
      intro new hnew t ht
      cases hnew
      simp [status_runSynthesis ht]
  | budgetReconcile | requestApproval => exact hquiet _ rfl (by simp)
  | errorAnalysis _ hpass =>
    refine hquiet _ (by cases hpass <;> rfl) ?_
    intro new hnew t ht
    cases hpass with
    | nothingToBlame => cases hnew
    | exhausted | callFailed =>
      cases hnew
      simp [status_escalate ht]
    | answered =>
      simp only at hnew
      split_ifs at hnew
      cases hnew
      exact status_mem_blamedTasks hp.nodup ht
  | approvalGate => exact ⟨rfl, fun t ht _ => ht⟩
  | budgetAbort _ hu =>
    cases hu
    refine hquiet _ rfl ?_
    intro new hnew t ht
    simp only at hnew
    split_ifs at hnew
    cases hnew
    obtain ⟨t₀, -, rfl⟩ := List.mem_map.mp ht
    simp

/-- A wave that comes back makes the tasks of its successful branches succeed. -/
theorem Coupled.wave (hc : Coupled c) (hp : Placed c.state c.next) {sends : List Send}
    (hnext : c.next = .editors sends) (h : Superstep c i c') (hback : c'.next.isRaised = false) :
    Coupled c' := by
  obtain ⟨arrivals, -, harrivals, htrace, hraised | ⟨-, updates, log, hupdates, hstate⟩⟩ :=
    superstep_of_editors hp hnext h
  · obtain ⟨-, exc, hexc, -⟩ := hraised
    rw [hexc] at hback
    cases hback
  · set records := (runWave (arrivalOrder sends arrivals)).2 with hrecords
    have htagged : ∀ r ∈ records, r.Tagged := fun r hr => tagged_of_mem_runWave hr
    have hnd : (records.map fun r => r.task.id).Nodup := by
      have hperm := (records_perm_nextWave hp hnext harrivals).map MigrationTask.id
      rw [List.map_map] at hperm
      exact hperm.nodup_iff.mpr (nodup_nextWave hp.nodup)
    refine ⟨fun id => ?_, fun t ht hst => ?_⟩
    · rw [hstate, htrace, lastSuccess_cons_wave, ← hc.newest id, ← last_results_wave hnd htagged]
      exact last_append _ _ _
    · rw [hstate] at ht ⊢
      have hgrown : (c.state.afterWave records log).editorResults.map EditorResult.taskId =
          c.state.editorResults.map EditorResult.taskId ++
            (records.flatMap BranchRecord.results).map EditorResult.taskId := List.map_append
      rw [hgrown, List.mem_append]
      rcases mem_of_mem_upsertAll ht with ht | ht
      · exact Or.inl (hc.coded t ht hst)
      · obtain ⟨r, hr, rfl⟩ := List.mem_map.mp ht
        obtain ⟨result, costUsd, hout⟩ :=
          succeeded_of_status_after hst (not_crashed_of_runWave hupdates r hr)
        have hresult : result ∈ r.results := by simp [BranchRecord.results, hout]
        rw [BranchRecord.id_after, ← htagged r hr result hresult]
        exact Or.inr (List.mem_map_of_mem (List.mem_flatMap.mpr ⟨r, hr, hresult⟩))

theorem Coupled.superstep (hc : Coupled c) (hp : Placed c.state c.next) (h : Superstep c i c')
    (hback : c'.next.isRaised = false) : Coupled c' := by
  by_cases hwave : ∃ sends, c.next = .editors sends
  · obtain ⟨sends, hnext⟩ := hwave
    exact hc.wave hp hnext h hback
  · have hnext : ∀ sends, c.next ≠ .editors sends := fun sends hs => hwave ⟨sends, hs⟩
    obtain ⟨e, htrace, hnone⟩ := trace_of_not_editors hnext h
    obtain ⟨hresults, hsucceeded⟩ := results_of_not_editors hnext hp h
    refine ⟨fun id => ?_, fun t ht hst => ?_⟩
    · rw [hresults, htrace, lastSuccess_cons_of_branches hnone, hc.newest id]
    · rw [hresults]
      exact hc.coded t (hsucceeded t ht hst) hst

end Steps

section Runs

variable [UnicodeData] {config : MigrationRunConfig} {limits : BudgetLimits} {maxRetryRounds : ℤ}
  {startedAt : ℚ} {inputs : List Input} {c : Snapshot}

theorem coupled_of_run
    (hrun : graph.Run (initial config limits maxRetryRounds startedAt) inputs c)
    (hback : c.next.isRaised = false) : Coupled c := by
  revert hback
  refine hrun.invariant_under (J := fun c => c.next.isRaised = false → Coupled c) placed_of_run
    (fun _ => ⟨fun _ => rfl, by simp [initial]⟩) ?_
  intro c i c' hp hc hstep _
  have h := superstep_of_step hstep
  exact (hc (isRaised_of_superstep h)).superstep hp h

/-- Wherever a run stands that has not been stopped by an exception, the effective results
are one result for each SUCCEEDED task and for no other, the one of its most recent
successful editor call. -/
theorem effective_results_are_newest
    (hrun : graph.Run (initial config limits maxRetryRounds startedAt) inputs c)
    (hback : c.next.isRaised = false) :
    ((effectiveResults c.state.editorResults c.state.tasks).map EditorResult.taskId).Nodup ∧
      (∀ id, id ∈ (effectiveResults c.state.editorResults c.state.tasks).map EditorResult.taskId ↔
        ∃ t ∈ c.state.tasks, t.id = id ∧ t.status = .succeeded) ∧
      ∀ result ∈ effectiveResults c.state.editorResults c.state.tasks,
        lastSuccess c.trace result.taskId = some result := by
  have hc := coupled_of_run hrun hback
  have hnd : ((latestResultsByTask c.state.editorResults).map EditorResult.taskId).Nodup :=
    nodup_keys_collect _
  have hids : ∀ id, id ∈ succeededIds c.state.tasks ↔
      ∃ t ∈ c.state.tasks, t.id = id ∧ t.status = .succeeded := by
    intro id
    simp [succeededIds, and_assoc, and_comm]
  refine ⟨hnd.sublist (List.filter_sublist.map _), fun id => ?_, fun result hresult => ?_⟩
  · rw [← hids]
    constructor
    · intro hid
      obtain ⟨result, hresult, rfl⟩ := List.mem_map.mp hid
      simpa using (List.mem_filter.mp hresult).2
    · intro hid
      obtain ⟨t, ht, rfl, hst⟩ := (hids id).mp hid
      have hcode : t.id ∈ (latestResultsByTask c.state.editorResults).map EditorResult.taskId :=
        (mem_keys_collect _ _).mpr (hc.coded t ht hst)
      obtain ⟨result, hresult, htask⟩ := List.mem_map.mp hcode
      exact List.mem_map.mpr ⟨result, List.mem_filter.mpr ⟨hresult, by simpa [htask] using hid⟩,
        htask⟩
  · have hmem := (List.mem_filter.mp hresult).1
    have hlookup := lookup_of_mem hnd hmem
    rw [latestResultsByTask, lookup_collect, hc.newest] at hlookup
    exact hlookup

end Runs

section Approved

attribute [local instance] asciiTables

theorem effective_results_are_newest_approvedRun :
    ∃ c : Snapshot, c.state.tasks ≠ [] ∧ c.next.isRaised = false ∧
      ∀ result ∈ effectiveResults c.state.editorResults c.state.tasks,
        lastSuccess c.trace result.taskId = some result := by
  have hreplay : (replay (initial demoConfig demoLimits 5 0) approvedRun).any
      (fun c => !c.state.tasks.isEmpty && !c.next.isRaised) = true := by decide +kernel
  obtain ⟨c, hrun, hboth⟩ := exists_run_of_replay hreplay
  simp only [Bool.and_eq_true, Bool.not_eq_true', List.isEmpty_eq_false_iff] at hboth
  exact ⟨c, hboth.1, hboth.2, (effective_results_are_newest hrun hboth.2).2.2⟩

end Approved

end StackMigrate
