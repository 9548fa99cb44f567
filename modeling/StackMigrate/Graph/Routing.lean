import StackMigrate.State.GraphState

/-!
# The routers of the graph

Every conditional edge is decided here. `route_to_editors` is the central gate in
front of all editor calls; it looks at the clock twice, once in its own exhausted
check and once inside `affordable_calls`.
-/

namespace StackMigrate

open KeyedList

/-- `status_by_id.get(id)`, for the dictionary built from the task list. -/
def statusById (tasks : List MigrationTask) (id : String) : Option TaskStatus :=
  (lookup MigrationTask.id (collect MigrationTask.id tasks) id).map MigrationTask.status

/-- A task that may be dispatched once its dependencies have succeeded. -/
def MigrationTask.isOpen (t : MigrationTask) : Bool :=
  t.status = .pending || t.status = .retrying

def getReadyTasks (tasks : List MigrationTask) : List MigrationTask :=
  tasks.filter fun task =>
    task.isOpen && task.dependsOnTaskIds.all fun dep => statusById tasks dep = some .succeeded

/-- The payload of one `Send("editor", …)`. -/
structure Send where
  config : MigrationRunConfig
  comprehension : Option ComprehensionResult
  budget : BudgetState
  currentTask : MigrationTask

/-- The readings of `time.time()` made inside one call of `route_to_editors`: in its
own exhausted check, and in the one of `affordable_calls`. -/
structure GateReadings where
  first : ℚ
  second : ℚ

/-- The result of `route_to_editors`. -/
inductive Route
  | noReadyTasks
  | budgetExhausted
  | sends (branches : List Send)

/-- One `Send` per task, all with the same context. -/
def sendsFor (s : GraphState) (tasks : List MigrationTask) : List Send :=
  tasks.map fun task =>
    { config := s.config
      comprehension := s.comprehension
      budget := s.budget
      currentTask := task }

def routeToEditors (s : GraphState) (gate : GateReadings) : Except PyException Route :=
  let ready := getReadyTasks s.tasks
  if ready.isEmpty then .ok .noReadyTasks
  else if s.budget.isExhausted gate.first then .ok .budgetExhausted
  else
    match s.budget.affordableCalls ready.length gate.second with
    | .error e => .error e
    | .ok n => .ok (.sends (sendsFor s (ready.take n.toNat)))

/-- Whether the sandbox result counts as a pass; no result is never a pass. -/
def routeAfterSandbox (s : GraphState) : Bool :=
  match s.fullSuiteResult with
  | some result => result.outcome = .passed
  | none => false

/-- `bool(config.get("github_target_repo"))`. -/
def hasTargetRepo (s : GraphState) : Bool := s.config.githubTargetRepo.any Json.truthy

/-- Must a human approve before a pull request is opened? The switch defaults to yes. -/
def needsHumanApproval (s : GraphState) : Bool :=
  hasTargetRepo s && (s.config.requireHumanApprovalBeforePr.getD (.bool true)).truthy

/-- `state.get("approval_status") == "approved"`. -/
def routeAfterApproval (s : GraphState) : Bool := s.approvalStatus = some "approved"

/-! ### Readiness -/

theorem statusById_of_mem {tasks : List MigrationTask}
    (hnd : (tasks.map MigrationTask.id).Nodup) {t : MigrationTask} (ht : t ∈ tasks) :
    statusById tasks t.id = some t.status := by
  rw [statusById, collect_of_nodup hnd, lookup_of_mem hnd ht]
  rfl

theorem statusById_eq_some {tasks : List MigrationTask}
    (hnd : (tasks.map MigrationTask.id).Nodup) {id : String} {st : TaskStatus} :
    statusById tasks id = some st ↔ ∃ t ∈ tasks, t.id = id ∧ t.status = st := by
  constructor
  · intro h
    rw [statusById, collect_of_nodup hnd, Option.map_eq_some_iff] at h
    obtain ⟨t, ht, hst⟩ := h
    exact ⟨t, mem_of_lookup ht, key_of_lookup ht, hst⟩
  · rintro ⟨t, ht, rfl, rfl⟩
    exact statusById_of_mem hnd ht

theorem MigrationTask.isOpen_iff {t : MigrationTask} :
    t.isOpen = true ↔ t.status = .pending ∨ t.status = .retrying := by
  simp [MigrationTask.isOpen]

theorem mem_getReadyTasks {tasks : List MigrationTask} {t : MigrationTask} :
    t ∈ getReadyTasks tasks ↔
      t ∈ tasks ∧ t.isOpen = true ∧
        ∀ dep ∈ t.dependsOnTaskIds, statusById tasks dep = some .succeeded := by
  simp [getReadyTasks]

theorem getReadyTasks_sublist (tasks : List MigrationTask) :
    List.Sublist (getReadyTasks tasks) tasks :=
  List.filter_sublist

/-! ### The dispatch gate -/

@[simp] theorem currentTask_sendsFor (s : GraphState) (tasks : List MigrationTask) :
    (sendsFor s tasks).map Send.currentTask = tasks := by
  simp [sendsFor, Function.comp_def]

theorem budget_of_mem_sendsFor {s : GraphState} {tasks : List MigrationTask} {send : Send}
    (h : send ∈ sendsFor s tasks) : send.budget = s.budget := by
  simp only [sendsFor, List.mem_map] at h
  obtain ⟨t, -, rfl⟩ := h
  rfl

/-- The tasks that a dispatch with budget left takes from the front of the ready list. -/
def nextWave (s : GraphState) : List MigrationTask :=
  let ready := getReadyTasks s.tasks
  ready.take (max 1 (min (ready.length : ℤ) s.budget.callsWithinReserve)).toNat

/-- The five ways through the gate, with what is known on each of them. -/
inductive GatePass (s : GraphState) (gate : GateReadings) : Except PyException Route → Prop
  | nothingReady (hready : getReadyTasks s.tasks = []) : GatePass s gate (.ok .noReadyTasks)
  | exhausted (hready : getReadyTasks s.tasks ≠ [])
      (hfirst : s.budget.isExhausted gate.first = true) :
      GatePass s gate (.ok .budgetExhausted)
  | crossed (hready : getReadyTasks s.tasks ≠ [])
      (hfirst : s.budget.isExhausted gate.first = false)
      (hsecond : s.budget.isExhausted gate.second = true) :
      GatePass s gate (.ok (.sends []))
  | zeroReserve (hready : getReadyTasks s.tasks ≠ [])
      (hfirst : s.budget.isExhausted gate.first = false)
      (hsecond : s.budget.isExhausted gate.second = false)
      (hreserve : s.budget.callReserve = 0) :
      GatePass s gate (.error .zeroDivisionError)
  | dispatched (hready : getReadyTasks s.tasks ≠ [])
      (hfirst : s.budget.isExhausted gate.first = false)
      (hsecond : s.budget.isExhausted gate.second = false)
      (hreserve : s.budget.callReserve ≠ 0) :
      GatePass s gate (.ok (.sends (sendsFor s (nextWave s))))

theorem routeToEditors_pass (s : GraphState) (gate : GateReadings) :
    GatePass s gate (routeToEditors s gate) := by
  by_cases hready : getReadyTasks s.tasks = []
  · have h : routeToEditors s gate = .ok .noReadyTasks := by simp [routeToEditors, hready]
    exact h ▸ .nothingReady hready
  have hlen : (0 : ℤ) < (getReadyTasks s.tasks).length := by
    have := List.length_pos_of_ne_nil hready
    omega
  cases hfirst : s.budget.isExhausted gate.first with
  | true =>
    have h : routeToEditors s gate = .ok .budgetExhausted := by
      simp [routeToEditors, hready, hfirst]
    exact h ▸ .exhausted hready hfirst
  | false =>
    cases hsecond : s.budget.isExhausted gate.second with
    | true =>
      have h : routeToEditors s gate = .ok (.sends []) := by
        simp [routeToEditors, hready, hfirst, sendsFor,
          s.budget.affordableCalls_of_exhausted hsecond]
      exact h ▸ .crossed hready hfirst hsecond
    | false =>
      by_cases hr : s.budget.callReserve = 0
      · have h : routeToEditors s gate = .error .zeroDivisionError := by
          simp [routeToEditors, hready, hfirst, BudgetState.affordableCalls, hsecond, hr]
        exact h ▸ .zeroReserve hready hfirst hsecond hr
      · have h : routeToEditors s gate = .ok (.sends (sendsFor s (nextWave s))) := by
          simp [routeToEditors, hready, hfirst, nextWave,
            s.budget.affordableCalls_of_reserve hlen hsecond hr]
        exact h ▸ .dispatched hready hfirst hsecond hr

theorem nextWave_sublist (s : GraphState) : List.Sublist (nextWave s) (getReadyTasks s.tasks) :=
  List.take_sublist _ _

/-- The size of a wave: at least one task, and never more than are ready. -/
theorem length_nextWave {s : GraphState} (hready : getReadyTasks s.tasks ≠ []) :
    ((nextWave s).length : ℤ) =
      max 1 (min ((getReadyTasks s.tasks).length : ℤ) s.budget.callsWithinReserve) := by
  have hpos := List.length_pos_of_ne_nil hready
  rw [nextWave, List.length_take]
  omega

theorem nextWave_ne_nil {s : GraphState} (hready : getReadyTasks s.tasks ≠ []) :
    nextWave s ≠ [] := by
  have hlen := length_nextWave hready
  rintro h
  rw [h, List.length_nil] at hlen
  omega

end StackMigrate
