import StackMigrate.Graph.Waves

/-!
# How the task list moves

What holds at each place of the graph about the task list, and the moves a task can
make in one superstep. Outside synthesis no superstep adds, drops or renames a task.
-/

namespace StackMigrate

open KeyedList

/-! ### Merging into a planned list -/

/-- The value a merge leaves for a task that was planned. -/
def replaced (new : List MigrationTask) (t : MigrationTask) : MigrationTask :=
  (last MigrationTask.id new t.id).getD t

theorem replaced_cases (new : List MigrationTask) (t : MigrationTask) :
    (t.id ∉ new.map MigrationTask.id ∧ replaced new t = t) ∨
      ∃ t' ∈ new, t'.id = t.id ∧ replaced new t = t' := by
  cases h : last MigrationTask.id new t.id with
  | none => exact Or.inl ⟨last_eq_none_iff.mp h, by simp [replaced, h]⟩
  | some t' => exact Or.inr ⟨t', mem_of_last h, key_of_last h, by simp [replaced, h]⟩

@[simp] theorem id_replaced (new : List MigrationTask) (t : MigrationTask) :
    (replaced new t).id = t.id := by
  rcases replaced_cases new t with ⟨-, h⟩ | ⟨t', -, hid, h⟩
  · rw [h]
  · rw [h, hid]

@[simp] theorem replaced_nil : replaced [] = id := rfl

theorem replaced_of_notMem {new : List MigrationTask} {t : MigrationTask}
    (h : t.id ∉ new.map MigrationTask.id) : replaced new t = t := by
  rw [replaced, last_eq_none_iff.mpr h]
  rfl

theorem replaced_of_nodup {new : List MigrationTask} {t t' : MigrationTask}
    (hnd : (new.map MigrationTask.id).Nodup) (ht' : t' ∈ new) (hid : t'.id = t.id) :
    replaced new t = t' := by
  rw [replaced, ← hid, last_of_nodup hnd ht']
  rfl

theorem eq_of_id_eq {tasks : List MigrationTask} (hnd : (tasks.map MigrationTask.id).Nodup)
    {t t' : MigrationTask} (ht : t ∈ tasks) (ht' : t' ∈ tasks) (hid : t.id = t'.id) : t = t' :=
  List.inj_on_of_nodup_map hnd ht ht' hid

/-! ### Places -/

/-- What is known about the task list where the graph stands. -/
structure Placed (s : GraphState) (next : Next) : Prop where
  nodup : (s.tasks.map MigrationTask.id).Nodup
  unplanned : next = .node .comprehension ∨ next = .node .synthesis → s.tasks = []
  wave : ∀ sends, next = .editors sends →
    sends = sendsFor s (nextWave s) ∧ getReadyTasks s.tasks ≠ [] ∧ s.budget.callReserve ≠ 0 ∧
      ∃ now, s.budget.isExhausted now = false
  idle : next = .node .sandboxTest ∨ next = .node .errorAnalysis → getReadyTasks s.tasks = []

theorem placed_of_dispatched {noReadyTasks next : Next} {gate : GateReadings} {s : GraphState}
    (hnd : (s.tasks.map MigrationTask.id).Nodup)
    (hedge : noReadyTasks = .node .sandboxTest ∨ noReadyTasks = .finished)
    (h : Dispatched noReadyTasks gate s next) : Placed s next := by
  cases h with
  | nothingReady hready =>
    rcases hedge with rfl | rfl <;> exact ⟨hnd, by simp, by simp, by simp [hready]⟩
  | exhausted => exact ⟨hnd, by simp, by simp, by simp⟩
  | crossed => exact ⟨hnd, by simp, by simp, by simp⟩
  | wave hready hfirst hsecond hreserve =>
    refine ⟨hnd, by simp, ?_, by simp⟩
    intro sends hsends
    cases hsends
    exact ⟨rfl, hready, hreserve, gate.first, hfirst⟩

theorem placed_initial (config : MigrationRunConfig) (limits : BudgetLimits) (maxRetryRounds : ℤ)
    (startedAt : ℚ) :
    Placed (initial config limits maxRetryRounds startedAt).state
      (initial config limits maxRetryRounds startedAt).next :=
  ⟨by simp [initial], by simp [initial], by simp [initial], by simp [initial]⟩

theorem placed_planned {s : GraphState} (gate : GateReadings)
    (hnd : (s.tasks.map MigrationTask.id).Nodup) :
    Placed (planned s gate).state (planned s gate).next := by
  unfold planned
  cases h : dispatch (.node .sandboxTest) gate s with
  | error exc => exact ⟨hnd, by simp, by simp, by simp⟩
  | ok next => exact placed_of_dispatched hnd (Or.inl rfl) (dispatched_of_dispatch h)

/-! ### The wave that was dispatched -/

theorem tasks_of_records {sends : List Send} {arrivals : List (ℕ × BranchInput)}
    (harrivals : (arrivals.map Prod.fst).Perm (List.range sends.length)) :
    ((runWave (arrivalOrder sends arrivals)).2.map BranchRecord.task).Perm
      (sends.map Send.currentTask) := by
  have h := (perm_arrivalOrder harrivals).map Send.currentTask
  simpa [Function.comp_def] using h

section Wave

variable {c : Snapshot} {sends : List Send} {arrivals : List (ℕ × BranchInput)}

/-- The branches of a wave work on the dispatched tasks, each once. -/
theorem records_perm_nextWave (hp : Placed c.state c.next) (hnext : c.next = .editors sends)
    (harrivals : (arrivals.map Prod.fst).Perm (List.range sends.length)) :
    ((runWave (arrivalOrder sends arrivals)).2.map BranchRecord.task).Perm
      (nextWave c.state) := by
  have hsends : sends.map Send.currentTask = nextWave c.state := by
    rw [(hp.wave sends hnext).1, currentTask_sendsFor]
  exact hsends ▸ tasks_of_records harrivals

theorem mem_tasks_of_mem_nextWave {s : GraphState} {t : MigrationTask} (h : t ∈ nextWave s) :
    t ∈ s.tasks :=
  ((nextWave_sublist s).trans (getReadyTasks_sublist s.tasks)).subset h

theorem ready_of_mem_nextWave {s : GraphState} {t : MigrationTask} (h : t ∈ nextWave s) :
    t.isOpen = true ∧ ∀ dep ∈ t.dependsOnTaskIds, statusById s.tasks dep = some .succeeded :=
  (mem_getReadyTasks.mp ((nextWave_sublist s).subset h)).2

theorem nodup_nextWave {s : GraphState} (h : (s.tasks.map MigrationTask.id).Nodup) :
    ((nextWave s).map MigrationTask.id).Nodup :=
  h.sublist (((nextWave_sublist s).trans (getReadyTasks_sublist s.tasks)).map _)

/-- The tasks of a wave that came back, in the list as it was: every dispatched task is
replaced by what its own branch made of it. -/
theorem tasks_afterWave (hp : Placed c.state c.next) (hnext : c.next = .editors sends)
    (harrivals : (arrivals.map Prod.fst).Perm (List.range sends.length)) (log : List String) :
    let records := (runWave (arrivalOrder sends arrivals)).2
    (c.state.afterWave records log).tasks =
        c.state.tasks.map (replaced (records.map BranchRecord.after)) ∧
      (∀ r ∈ records, replaced (records.map BranchRecord.after) r.task = r.after) ∧
      ∀ t ∈ c.state.tasks, t ∉ nextWave c.state →
        replaced (records.map BranchRecord.after) t = t := by
  intro records
  have hperm : (records.map BranchRecord.task).Perm (nextWave c.state) :=
    records_perm_nextWave hp hnext harrivals
  have hids : (records.map BranchRecord.after).map MigrationTask.id =
      (records.map BranchRecord.task).map MigrationTask.id := by
    simp [Function.comp_def]
  have hndNew : ((records.map BranchRecord.after).map MigrationTask.id).Nodup := by
    rw [hids]
    exact (hperm.map _).nodup_iff.mpr (nodup_nextWave hp.nodup)
  refine ⟨?_, ?_, ?_⟩
  · refine upsertAll_eq_map hp.nodup ?_
    intro t ht
    have hid : t.id ∈ (records.map BranchRecord.task).map MigrationTask.id := by
      rw [← hids]
      exact List.mem_map_of_mem ht
    obtain ⟨t', ht', hid'⟩ := List.mem_map.mp ((hperm.map _).mem_iff.mp hid)
    exact List.mem_map.mpr ⟨t', mem_tasks_of_mem_nextWave ht', hid'⟩
  · intro r hr
    exact replaced_of_nodup hndNew (List.mem_map_of_mem hr) (by simp)
  · intro t ht hwave
    apply replaced_of_notMem
    rw [hids]
    intro hmem
    obtain ⟨t', ht', hid⟩ := List.mem_map.mp ((hperm.map _).mem_iff.mp hmem)
    have heq := eq_of_id_eq hp.nodup (mem_tasks_of_mem_nextWave ht') ht hid
    exact hwave (heq ▸ ht')

end Wave

/-! ### Moves -/

/-- The moves of one task in one superstep. -/
inductive TaskMove (s : GraphState) (t : MigrationTask) : MigrationTask → Prop
  | kept : TaskMove s t t
  | dispatched (r : BranchRecord) (htask : r.task = t) (hwave : t ∈ nextWave s) :
      TaskMove s t r.after
  | escalated (hsucceeded : t.status = .succeeded) :
      TaskMove s t { t with status := .needsHuman }
  | blamed (capHit : Bool) (analysis : ErrorAnalysis) (hsucceeded : t.status = .succeeded) :
      TaskMove s t (blamedTask capHit analysis t)
  | aborted (hunfinished : t.status.unfinished = true) :
      TaskMove s t { t with status := .skipped }

namespace TaskMove

variable {s : GraphState} {t t' : MigrationTask}

theorem id_eq (h : TaskMove s t t') : t'.id = t.id := by
  cases h with
  | dispatched r htask _ => rw [r.id_after, htask]
  | _ => rfl

theorem dependsOnTaskIds_eq (h : TaskMove s t t') : t'.dependsOnTaskIds = t.dependsOnTaskIds := by
  cases h with
  | dispatched r htask _ => rw [r.dependsOnTaskIds_after, htask]
  | _ => rfl

theorem maxRetries_eq (h : TaskMove s t t') : t'.maxRetries = t.maxRetries := by
  cases h with
  | dispatched r htask _ => rw [r.maxRetries_after, htask]
  | _ => rfl

end TaskMove

theorem mem_candidateTasks {s : GraphState} {t : MigrationTask} (h : t ∈ candidateTasks s) :
    t ∈ s.tasks ∧ t.status = .succeeded := by
  simp only [candidateTasks, List.mem_filter, Bool.and_eq_true, decide_eq_true_eq] at h
  exact ⟨h.1, h.2.1⟩

theorem nodup_candidateTasks {s : GraphState} (h : (s.tasks.map MigrationTask.id).Nodup) :
    ((candidateTasks s).map MigrationTask.id).Nodup :=
  h.sublist (List.filter_sublist.map _)

theorem mem_blamedTasks {s : GraphState} {capHit : Bool} {analyses : List ErrorAnalysis}
    (hnd : (s.tasks.map MigrationTask.id).Nodup) {t' : MigrationTask} :
    t' ∈ blamedTasks capHit (candidateTasks s) analyses ↔
      ∃ t ∈ candidateTasks s, ∃ a ∈ analyses, a.taskId = t.id ∧ t' = blamedTask capHit a t := by
  have hcand := nodup_candidateTasks hnd
  simp only [blamedTasks, List.mem_filterMap, Option.map_eq_some_iff, collect_of_nodup hcand]
  constructor
  · rintro ⟨a, ha, t, ht, rfl⟩
    exact ⟨t, mem_of_lookup ht, a, ha, (key_of_lookup ht).symm, rfl⟩
  · rintro ⟨t, ht, a, ha, hid, rfl⟩
    exact ⟨a, ha, t, hid ▸ lookup_of_mem hcand ht, rfl⟩

/-- An update whose tasks are moves of planned tasks replaces them in place. -/
theorem tasks_apply_replaced {s : GraphState} {u : Update}
    (hnd : (s.tasks.map MigrationTask.id).Nodup)
    (hnew : ∀ new, u.tasks = some new → ∀ t' ∈ new, ∃ t ∈ s.tasks, TaskMove s t t') :
    (s.apply u).tasks = s.tasks.map (replaced (u.tasks.getD [])) := by
  rw [GraphState.apply_tasks]
  cases hu : u.tasks with
  | none => simp
  | some new =>
    have hids : ∀ t' ∈ new, t'.id ∈ s.tasks.map MigrationTask.id := by
      intro t' ht'
      obtain ⟨t, ht, hmove⟩ := hnew new hu t' ht'
      exact List.mem_map.mpr ⟨t, ht, hmove.id_eq.symm⟩
    exact mergeTaskLists_eq_map hnd hids

/-- So it moves the whole list. -/
theorem tasks_apply_moved {s : GraphState} {u : Update}
    (hnd : (s.tasks.map MigrationTask.id).Nodup)
    (hnew : ∀ new, u.tasks = some new → ∀ t' ∈ new, ∃ t ∈ s.tasks, TaskMove s t t') :
    ∃ f, (s.apply u).tasks = s.tasks.map f ∧ ∀ t ∈ s.tasks, TaskMove s t (f t) := by
  refine ⟨_, tasks_apply_replaced hnd hnew, fun t ht => ?_⟩
  rcases replaced_cases (u.tasks.getD []) t with ⟨-, heq⟩ | ⟨t', ht', hid, heq⟩
  · rw [heq]
    exact .kept
  · obtain ⟨new, hu⟩ : ∃ new, u.tasks = some new := by
      cases hu : u.tasks with
      | none => simp [hu] at ht'
      | some new => exact ⟨new, rfl⟩
    rw [hu, Option.getD_some] at ht'
    obtain ⟨t₀, ht₀, hmove⟩ := hnew new hu t' ht'
    have hsame : t₀ = t := eq_of_id_eq hnd ht₀ ht (hmove.id_eq.symm.trans hid)
    rw [heq]
    exact hsame ▸ hmove

theorem tasks_analysis_moved {s : GraphState} {answer : AnalysisInput} {event : Event}
    {u : Update} (hnd : (s.tasks.map MigrationTask.id).Nodup)
    (hpass : AnalysisPass s answer event u) :
    ∀ new, u.tasks = some new → ∀ t' ∈ new, ∃ t ∈ s.tasks, TaskMove s t t' := by
  have hescalate : ∀ t' ∈ escalate (candidateTasks s), ∃ t ∈ s.tasks, TaskMove s t t' := by
    intro t' ht'
    obtain ⟨t, ht, rfl⟩ := List.mem_map.mp ht'
    exact ⟨t, (mem_candidateTasks ht).1, .escalated (mem_candidateTasks ht).2⟩
  intro new hnew
  cases hpass with
  | nothingToBlame => cases hnew
  | exhausted =>
    cases hnew
    exact hescalate
  | callFailed =>
    cases hnew
    exact hescalate
  | answered log result =>
    simp only at hnew
    split_ifs at hnew
    cases hnew
    intro t' ht'
    obtain ⟨t, ht, a, -, -, rfl⟩ := (mem_blamedTasks hnd).mp ht'
    exact ⟨t, (mem_candidateTasks ht).1, .blamed _ a (mem_candidateTasks ht).2⟩

theorem tasks_abort_moved {s : GraphState} {now later : ℚ} {u : Update}
    (hu : (budgetAbortNode s now later).update = .ok u) :
    ∀ new, u.tasks = some new → ∀ t' ∈ new, ∃ t ∈ s.tasks, TaskMove s t t' := by
  cases hu
  intro new hnew
  simp only at hnew
  split_ifs at hnew
  cases hnew
  intro t' ht'
  obtain ⟨t, ht, rfl⟩ := List.mem_map.mp ht'
  obtain ⟨hmem, hunfinished⟩ := List.mem_filter.mp ht
  exact ⟨t, hmem, .aborted hunfinished⟩

/-- Outside synthesis, a superstep moves the planned tasks and does nothing else to the
list. -/
theorem tasks_moved [UnicodeData] {c c' : Snapshot} {i : Input} (hp : Placed c.state c.next)
    (h : Superstep c i c') (hplanned : c.next ≠ .node .synthesis) :
    ∃ f, c'.state.tasks = c.state.tasks.map f ∧ ∀ t ∈ c.state.tasks, TaskMove c.state t (f t) := by
  have hkept : ∀ u : Update, u.tasks = none →
      ∃ f, (c.state.apply u).tasks = c.state.tasks.map f ∧
        ∀ t ∈ c.state.tasks, TaskMove c.state t (f t) := by
    intro u hu
    exact tasks_apply_moved hp.nodup (by simp [hu])
  cases h with
  | raised => exact ⟨id, by simp, fun t _ => .kept⟩
  | comprehension _ hpass => exact hkept _ (by cases hpass <;> rfl)
  | synthesis hnext => exact absurd hnext hplanned
  | wave hnext harrivals hupdates =>
    obtain ⟨log, hlog⟩ := applyAll_wave hp.nodup hupdates
    obtain ⟨htasks, hmoved, hkeep⟩ := tasks_afterWave hp hnext harrivals log
    refine ⟨_, by rw [Snapshot.moved_state, hlog, htasks], ?_⟩
    intro t ht
    by_cases hwave : t ∈ nextWave c.state
    · have hperm := records_perm_nextWave hp hnext harrivals
      obtain ⟨r, hr, htask⟩ := List.mem_map.mp (hperm.mem_iff.mpr hwave)
      have hafter := hmoved r hr
      rw [htask] at hafter
      rw [hafter]
      exact .dispatched r htask hwave
    · rw [hkeep t ht hwave]
      exact .kept
  | budgetReconcile => exact hkept _ rfl
  | sandboxTest _ hpass => exact hkept _ (by cases hpass <;> rfl)
  | errorAnalysis _ hpass => exact tasks_apply_moved hp.nodup (tasks_analysis_moved hp.nodup hpass)
  | aggregate _ hpass => exact hkept _ (by cases hpass <;> rfl)
  | requestApproval => exact hkept _ rfl
  | approvalGate => exact ⟨id, by simp, fun t _ => .kept⟩
  | resume _ hpass => exact hkept _ (by cases hpass <;> rfl)
  | prPublish _ hpass => exact hkept _ (by cases hpass <;> rfl)
  | budgetAbort _ hu => exact tasks_apply_moved hp.nodup (tasks_abort_moved hu)

theorem ids_moved {s : GraphState} {tasks : List MigrationTask}
    {f : MigrationTask → MigrationTask} (htasks : tasks = s.tasks.map f)
    (hmoves : ∀ t ∈ s.tasks, TaskMove s t (f t)) :
    tasks.map MigrationTask.id = s.tasks.map MigrationTask.id := by
  rw [htasks, List.map_map]
  exact List.map_congr_left fun t ht => (hmoves t ht).id_eq

theorem nodup_superstep [UnicodeData] {c c' : Snapshot} {i : Input} (hp : Placed c.state c.next)
    (h : Superstep c i c') : (c'.state.tasks.map MigrationTask.id).Nodup := by
  by_cases hplanned : c.next = .node .synthesis
  · cases h with
    | raised => exact hp.nodup
    | synthesis _ hpass =>
      cases hpass with
      | noPlan => exact hp.nodup
      | planned => exact nodup_mergeTaskLists _ _
    | _ => simp_all
  · obtain ⟨f, htasks, hmoves⟩ := tasks_moved hp h hplanned
    rw [ids_moved htasks hmoves]
    exact hp.nodup

theorem placed_superstep [UnicodeData] {c c' : Snapshot} {i : Input}
    (hp : Placed c.state c.next) (h : Superstep c i c') : Placed c'.state c'.next := by
  have hnd := nodup_superstep hp h
  cases h with
  | raised => exact ⟨hnd, by simp, by simp, by simp⟩
  | comprehension hnext hpass =>
    have htasks := hp.unplanned (Or.inl hnext)
    refine ⟨hnd, ?_, ?_, ?_⟩
    · intro _
      cases hpass <;> simpa using htasks
    all_goals
      simp only [Snapshot.moved_next, routeAfterComprehension]
      split <;> simp
  | synthesis _ _ hroute =>
    exact placed_of_dispatched hnd (Or.inl rfl) (dispatched_of_dispatch hroute)
  | wave => exact ⟨hnd, by simp, by simp, by simp⟩
  | budgetReconcile _ hroute =>
    exact placed_of_dispatched hnd (Or.inl rfl) (dispatched_of_dispatch hroute)
  | sandboxTest hnext hpass =>
    have hidle := hp.idle (Or.inl hnext)
    refine ⟨hnd, ?_, by simp, fun _ => ?_⟩
    · simp only [Snapshot.moved_next]
      split <;> simp
    · cases hpass <;> simpa using hidle
  | errorAnalysis _ _ hroute =>
    exact placed_of_dispatched hnd (Or.inr rfl) (dispatched_of_dispatch hroute)
  | aggregate =>
    refine ⟨hnd, ?_, ?_, ?_⟩
    all_goals
      simp only [Snapshot.moved_next, routeAfterAggregate]
      repeat' split
      all_goals simp
  | requestApproval => exact ⟨hnd, by simp, by simp, by simp⟩
  | approvalGate => exact ⟨hnd, by simp, by simp, by simp⟩
  | resume => refine ⟨hnd, ?_, ?_, ?_⟩ <;> simp only [Snapshot.moved_next] <;> split <;> simp
  | prPublish => exact ⟨hnd, by simp, by simp, by simp⟩
  | budgetAbort => exact ⟨hnd, by simp, by simp, by simp⟩

theorem placed_of_run [UnicodeData] {config : MigrationRunConfig} {limits : BudgetLimits}
    {maxRetryRounds : ℤ} {startedAt : ℚ} {ok : Snapshot → Input → Snapshot → Prop}
    {inputs : List Input} {c : Snapshot}
    (hrun : graph.RunWhere ok (initial config limits maxRetryRounds startedAt) inputs c) :
    Placed c.state c.next :=
  hrun.invariant (I := fun c => Placed c.state c.next) (placed_initial _ _ _ _)
    fun _ _ _ hp hstep _ => placed_superstep hp (superstep_of_step hstep)

end StackMigrate
