import StackMigrate.Graph.TaskMoves

/-!
# The loop behind synthesis

From the edge that leaves `synthesis` on the plan is fixed. Tasks change their status and
their retry counter, and every wave leaves a record of each task it dispatched.
-/

namespace StackMigrate

/-! ### The plan -/

/-- The part of a task that only synthesis decides. -/
def MigrationTask.plan (t : MigrationTask) : String × List String × ℤ :=
  (t.id, t.dependsOnTaskIds, t.maxRetries)

theorem TaskMove.plan_eq {s : GraphState} {t t' : MigrationTask} (h : TaskMove s t t') :
    t'.plan = t.plan := by
  simp only [MigrationTask.plan, h.id_eq, h.dependsOnTaskIds_eq, h.maxRetries_eq]

theorem plan_moved {s : GraphState} {tasks : List MigrationTask}
    {f : MigrationTask → MigrationTask} (htasks : tasks = s.tasks.map f)
    (hmoves : ∀ t ∈ s.tasks, TaskMove s t (f t)) :
    tasks.map MigrationTask.plan = s.tasks.map MigrationTask.plan := by
  rw [htasks, List.map_map]
  exact List.map_congr_left fun t ht => (hmoves t ht).plan_eq

/-- The run has left the planning nodes behind. -/
structure InLoop (tasks : List MigrationTask) (c : Snapshot) : Prop where
  placed : Placed c.state c.next
  comprehended : c.next ≠ .node .comprehension
  synthesized : c.next ≠ .node .synthesis
  plan : c.state.tasks.map MigrationTask.plan = tasks.map MigrationTask.plan

/-- A planned task is still in the list, with its dependencies and its cap. -/
theorem InLoop.exists_task {tasks : List MigrationTask} {c : Snapshot} (h : InLoop tasks c)
    {t : MigrationTask} (ht : t ∈ tasks) : ∃ t' ∈ c.state.tasks, t'.plan = t.plan := by
  have hmem : t.plan ∈ c.state.tasks.map MigrationTask.plan := by
    rw [h.plan]
    exact List.mem_map_of_mem ht
  exact List.mem_map.mp hmem

theorem InLoop.exists_planned {tasks : List MigrationTask} {c : Snapshot} (h : InLoop tasks c)
    {t' : MigrationTask} (ht' : t' ∈ c.state.tasks) : ∃ t ∈ tasks, t.plan = t'.plan := by
  have hmem : t'.plan ∈ tasks.map MigrationTask.plan := by
    rw [← h.plan]
    exact List.mem_map_of_mem ht'
  exact List.mem_map.mp hmem

theorem ne_planning_of_dispatched {noReadyTasks next : Next} {gate : GateReadings}
    {s : GraphState} (hedge : noReadyTasks = .node .sandboxTest ∨ noReadyTasks = .finished)
    (h : Dispatched noReadyTasks gate s next) :
    next ≠ .node .comprehension ∧ next ≠ .node .synthesis := by
  rcases next_of_dispatched hedge h with ⟨sends, rfl⟩ | rfl | rfl | rfl <;> simp

theorem inLoop_planned {s : GraphState} (gate : GateReadings)
    (hnd : (s.tasks.map MigrationTask.id).Nodup) : InLoop s.tasks (planned s gate) := by
  have hplaced := placed_planned gate hnd
  unfold planned at hplaced ⊢
  cases hroute : dispatch (.node .sandboxTest) gate s with
  | error exc => exact ⟨by simpa [hroute] using hplaced, by simp, by simp, rfl⟩
  | ok next =>
    obtain ⟨hcomp, hsyn⟩ := ne_planning_of_dispatched (Or.inl rfl) (dispatched_of_dispatch hroute)
    exact ⟨by simpa [hroute] using hplaced, by simpa using hcomp, by simpa using hsyn, rfl⟩

section Steps

variable [UnicodeData] {c c' : Snapshot} {i : Input} {tasks : List MigrationTask}

theorem ne_planning_superstep (hcomp : c.next ≠ .node .comprehension) (h : Superstep c i c') :
    c'.next ≠ .node .comprehension ∧ c'.next ≠ .node .synthesis := by
  cases h with
  | comprehension hnext => exact absurd hnext hcomp
  | synthesis _ _ hroute | budgetReconcile _ hroute =>
    exact ne_planning_of_dispatched (Or.inl rfl) (dispatched_of_dispatch hroute)
  | errorAnalysis _ _ hroute =>
    exact ne_planning_of_dispatched (Or.inr rfl) (dispatched_of_dispatch hroute)
  | sandboxTest =>
    rw [Snapshot.moved_next]
    split <;> simp
  | aggregate =>
    rw [Snapshot.moved_next, routeAfterAggregate]
    repeat' split
    all_goals simp
  | resume =>
    rw [Snapshot.moved_next]
    split <;> simp
  | _ => simp

/-- No edge leads back to the comprehension node. -/
theorem ne_comprehension_superstep (h : Superstep c i c') : c'.next ≠ .node .comprehension := by
  by_cases hcomp : c.next = .node .comprehension
  · cases h with
    | comprehension =>
      rw [Snapshot.moved_next, routeAfterComprehension]
      split <;> simp
    | raised => simp
    | _ => simp_all
  · exact (ne_planning_superstep hcomp h).1

/-- A run stands before the comprehension node only at its start. -/
theorem start_or_comprehended {config : MigrationRunConfig} {limits : BudgetLimits}
    {maxRetryRounds : ℤ} {startedAt : ℚ} {inputs : List Input}
    (hrun : graph.Run (initial config limits maxRetryRounds startedAt) inputs c) :
    (inputs = [] ∧ c = initial config limits maxRetryRounds startedAt) ∨
      (inputs ≠ [] ∧ c.next ≠ .node .comprehension) := by
  cases hrun with
  | refl => exact Or.inl ⟨rfl, rfl⟩
  | snoc _ hstep => exact Or.inr ⟨by simp, ne_comprehension_superstep (superstep_of_step hstep)⟩

theorem InLoop.superstep (hc : InLoop tasks c) (h : Superstep c i c') : InLoop tasks c' := by
  obtain ⟨hcomp, hsyn⟩ := ne_planning_superstep hc.comprehended h
  obtain ⟨f, htasks, hmoves⟩ := tasks_moved hc.placed h hc.synthesized
  exact ⟨placed_superstep hc.placed h, hcomp, hsyn, (plan_moved htasks hmoves).trans hc.plan⟩

end Steps

/-! ### Waves on record -/

/-- The records of the branches that the event ran. -/
def Event.branches : Event → List BranchRecord
  | wave records => records
  | _ => []

/-- How often the task was handed to an editor. -/
def dispatches (trace : List Event) (id : String) : ℕ :=
  ((trace.flatMap Event.branches).map fun r => r.task.id).count id

@[simp] theorem dispatches_nil (id : String) : dispatches [] id = 0 := rfl

theorem dispatches_cons_wave {records : List BranchRecord} {wave : List MigrationTask}
    (hperm : (records.map BranchRecord.task).Perm wave) (trace : List Event) (id : String) :
    dispatches (.wave records :: trace) id =
      (wave.map MigrationTask.id).count id + dispatches trace id := by
  have hids := ((hperm.map MigrationTask.id).count_eq id)
  rw [List.map_map] at hids
  simp only [dispatches, List.flatMap_cons, List.map_append, List.count_append, Event.branches]
  rw [← hids]
  rfl

theorem dispatches_cons_of_branches {e : Event} (h : e.branches = []) (trace : List Event)
    (id : String) : dispatches (e :: trace) id = dispatches trace id := by
  simp [dispatches, h]

/-- A wave dispatches each of its tasks once. -/
theorem count_nextWave {s : GraphState} (hnd : (s.tasks.map MigrationTask.id).Nodup)
    {t : MigrationTask} (ht : t ∈ s.tasks) [Decidable (t ∈ nextWave s)] :
    ((nextWave s).map MigrationTask.id).count t.id = if t ∈ nextWave s then 1 else 0 := by
  have hndWave := nodup_nextWave hnd
  split_ifs with hwave
  · exact List.count_eq_one_of_mem hndWave (List.mem_map_of_mem hwave)
  · refine List.count_eq_zero_of_not_mem ?_
    intro hmem
    obtain ⟨t', ht', hid⟩ := List.mem_map.mp hmem
    exact hwave (eq_of_id_eq hnd (mem_tasks_of_mem_nextWave ht') ht hid ▸ ht')

/-- A wave that came back has no crashed branch. -/
theorem not_crashed_of_runWave {branches : List (Send × BranchInput)} {updates : List Update}
    (h : (runWave branches).1 = .ok updates) :
    ∀ r ∈ (runWave branches).2, ∀ costUsd, r.outcome ≠ .crashed costUsd := by
  induction branches generalizing updates with
  | nil => simp
  | cons b branches ih =>
    obtain ⟨u, us, hu, hus, -⟩ := runWave_cons h
    intro r hr costUsd
    rw [records_runWave, List.map_cons, List.mem_cons] at hr
    rcases hr with rfl | hr
    · have hpass := editorNode_pass b.1 b.2
      generalize editorNode b.1 b.2 = result at hu hpass ⊢
      cases hpass with
      | crashed => cases hu
      | _ => simp
    · exact ih hus r (by rwa [records_runWave]) costUsd

section Steps

variable [UnicodeData] {c c' : Snapshot} {i : Input} {sends : List Send}

/-- The superstep of a wave: it raises and the state stays, or all branches come back. -/
theorem superstep_of_editors (hp : Placed c.state c.next) (hnext : c.next = .editors sends)
    (h : Superstep c i c') :
    ∃ arrivals, i = .editors arrivals ∧
      (arrivals.map Prod.fst).Perm (List.range sends.length) ∧
      c'.trace = .wave (runWave (arrivalOrder sends arrivals)).2 :: c.trace ∧
      ((c'.state = c.state ∧ ∃ exc, c'.next = .raised exc ∧
          (runWave (arrivalOrder sends arrivals)).1 = .error exc) ∨
        (c'.next = .node .budgetReconcile ∧ ∃ updates log,
          (runWave (arrivalOrder sends arrivals)).1 = .ok updates ∧
          c'.state = c.state.afterWave (runWave (arrivalOrder sends arrivals)).2 log)) := by
  cases h with
  | raised hraising =>
    cases hraising with
    | wave hsends harrivals hcrashed =>
      cases hnext.symm.trans hsends
      exact ⟨_, rfl, harrivals, rfl, Or.inl ⟨rfl, _, rfl, hcrashed⟩⟩
    | _ => simp_all
  | wave hsends harrivals hupdates =>
    cases hnext.symm.trans hsends
    obtain ⟨log, hlog⟩ := applyAll_wave hp.nodup hupdates
    exact ⟨_, rfl, harrivals, rfl, Or.inr ⟨rfl, _, log, hupdates, hlog⟩⟩
  | _ => simp_all

/-- Every other superstep records no branch. -/
theorem trace_of_not_editors (hnext : ∀ sends, c.next ≠ .editors sends) (h : Superstep c i c') :
    ∃ e, c'.trace = e :: c.trace ∧ e.branches = [] := by
  cases h with
  | raised hraising =>
    refine ⟨_, rfl, ?_⟩
    cases hraising with
    | wave hsends => exact absurd hsends (hnext _)
    | _ => rfl
  | wave hsends => exact absurd hsends (hnext _)
  | comprehension _ hpass => exact ⟨_, rfl, by cases hpass <;> rfl⟩
  | sandboxTest _ hpass => exact ⟨_, rfl, by cases hpass <;> rfl⟩
  | errorAnalysis _ hpass => exact ⟨_, rfl, by cases hpass <;> rfl⟩
  | _ => exact ⟨_, rfl, rfl⟩

end Steps

/-! ### Progress -/

/-- The graph accepts an input wherever it has not ended and does not wait for a reviewer. -/
theorem exists_step [UnicodeData] (c : Snapshot) :
    c.next = .finished ∨ c.next = .paused ∨ (∃ exc, c.next = .raised exc) ∨
      ∃ i c', graph.step c i = some c' := by
  have hstep : ∀ i, (step c i).isSome → ∃ i c', graph.step c i = some c' :=
    fun i h => ⟨i, Option.isSome_iff_exists.mp h⟩
  cases hnext : c.next with
  | finished => exact Or.inl rfl
  | paused => exact Or.inr (Or.inl rfl)
  | raised exc => exact Or.inr (Or.inr (Or.inl ⟨exc, rfl⟩))
  | editors sends =>
    let arrivals : List (ℕ × BranchInput) :=
      (List.range sends.length).map fun k => (k, ⟨0, 0, 0, .raised ""⟩)
    have hperm : (arrivals.map Prod.fst).Perm (List.range sends.length) := by
      simp [arrivals, Function.comp_def]
    refine Or.inr (Or.inr (Or.inr (hstep (.editors arrivals) ?_)))
    simp only [step, hnext, hperm, if_true, Option.isSome_some]
  | node n =>
    refine Or.inr (Or.inr (Or.inr ?_))
    cases n with
    | comprehension => exact hstep (.comprehension ⟨0, []⟩) (by simp [step, hnext])
    | synthesis => exact hstep (.synthesis ⟨0, 0⟩) (by simp [step, hnext])
    | budgetReconcile => exact hstep (.budgetReconcile ⟨0, 0⟩) (by simp [step, hnext])
    | sandboxTest =>
      exact hstep (.sandboxTest ⟨.empty, .ok { outcome := .passed }⟩)
        (by simp [step, hnext])
    | errorAnalysis =>
      exact hstep (.errorAnalysis ⟨0, .raised ""⟩ ⟨0, 0⟩) (by simp [step, hnext])
    | aggregate => exact hstep .aggregate (by simp [step, hnext])
    | requestApproval => exact hstep .requestApproval (by simp [step, hnext])
    | approvalGate => exact hstep .approvalGate (by simp [step, hnext])
    | prPublish => exact hstep (.prPublish (.error "")) (by simp [step, hnext])
    | budgetAbort => exact hstep (.budgetAbort 0 0) (by simp [step, hnext])

end StackMigrate
