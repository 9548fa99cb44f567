import StackMigrate.State.Tasks
import StackMigrate.State.Budget
import StackMigrate.Library.KeyedList

/-!
# The state of the migration graph

A key that no node has written yet is absent: `none`, or the empty value for a key
with a reducer. A node returns an update, and the reducers fold it into the state:
tasks are upserted by id, results, deltas and log lines are appended, and every
other key is overwritten.
-/

namespace StackMigrate

open KeyedList

/-- The run configuration. The two switches of the publication policy may hold any
value, or be missing. -/
structure MigrationRunConfig where
  runId : String
  sourceStack : String
  targetStack : String
  scopeDescription : String
  githubTargetRepo : Option Json := none
  requireHumanApprovalBeforePr : Option Json := none
  targetBaseBranch : Option String := none
  localCheckoutPath : String := ""
  targetWorkspacePath : String
  deriving Repr

structure GraphState where
  config : MigrationRunConfig
  budget : BudgetState
  maxRetryRounds : Option ℤ := none
  phase : Option MigrationPhase := none
  comprehension : Option ComprehensionResult := none
  tasks : List MigrationTask := []
  editorResults : List EditorResult := []
  testResults : List TestResult := []
  budgetDeltas : List ℚ := []
  budgetDeltasConsumed : ℕ := 0
  aggregatedDiffPaths : Option (List String) := none
  fullSuiteResult : Option TestResult := none
  prDraft : Option PRDraft := none
  prUrl : Option String := none
  prBranchName : Option String := none
  approvalStatus : Option String := none
  retryRound : ℤ := 0
  humanFeedback : Option Json := none
  errorLog : List String := []

/-- What a node returns: the keys it writes. -/
structure Update where
  budget : Option BudgetState := none
  phase : Option MigrationPhase := none
  comprehension : Option ComprehensionResult := none
  tasks : Option (List MigrationTask) := none
  editorResults : List EditorResult := []
  testResults : List TestResult := []
  budgetDeltas : List ℚ := []
  budgetDeltasConsumed : Option ℕ := none
  aggregatedDiffPaths : Option (List String) := none
  fullSuiteResult : Option TestResult := none
  prDraft : Option PRDraft := none
  prUrl : Option String := none
  prBranchName : Option String := none
  approvalStatus : Option String := none
  retryRound : Option ℤ := none
  humanFeedback : Option Json := none
  errorLog : List String := []

/-- `_merge_task_lists`, the reducer of the task list. -/
def mergeTaskLists (existing new : List MigrationTask) : List MigrationTask :=
  upsertAll MigrationTask.id (collect MigrationTask.id existing) new

namespace GraphState

/-- Fold one update into the state. -/
def apply (s : GraphState) (u : Update) : GraphState :=
  { config := s.config
    budget := u.budget.getD s.budget
    maxRetryRounds := s.maxRetryRounds
    phase := u.phase.or s.phase
    comprehension := u.comprehension.or s.comprehension
    tasks := u.tasks.elim s.tasks (mergeTaskLists s.tasks)
    editorResults := s.editorResults ++ u.editorResults
    testResults := s.testResults ++ u.testResults
    budgetDeltas := s.budgetDeltas ++ u.budgetDeltas
    budgetDeltasConsumed := u.budgetDeltasConsumed.getD s.budgetDeltasConsumed
    aggregatedDiffPaths := u.aggregatedDiffPaths.or s.aggregatedDiffPaths
    fullSuiteResult := u.fullSuiteResult.or s.fullSuiteResult
    prDraft := u.prDraft.or s.prDraft
    prUrl := u.prUrl.or s.prUrl
    prBranchName := u.prBranchName.or s.prBranchName
    approvalStatus := u.approvalStatus.or s.approvalStatus
    retryRound := u.retryRound.getD s.retryRound
    humanFeedback := u.humanFeedback.or s.humanFeedback
    errorLog := s.errorLog ++ u.errorLog }

/-- Fold the updates of the branches of one superstep, in the given order. -/
def applyAll (s : GraphState) (updates : List Update) : GraphState := updates.foldl apply s

variable (s : GraphState) (u : Update)

@[simp] theorem apply_config : (s.apply u).config = s.config := rfl
@[simp] theorem apply_maxRetryRounds : (s.apply u).maxRetryRounds = s.maxRetryRounds := rfl
@[simp] theorem apply_budget : (s.apply u).budget = u.budget.getD s.budget := rfl
@[simp] theorem apply_phase : (s.apply u).phase = u.phase.or s.phase := rfl

@[simp] theorem apply_comprehension :
    (s.apply u).comprehension = u.comprehension.or s.comprehension := rfl

@[simp] theorem apply_tasks :
    (s.apply u).tasks = u.tasks.elim s.tasks (mergeTaskLists s.tasks) := rfl

@[simp] theorem apply_editorResults :
    (s.apply u).editorResults = s.editorResults ++ u.editorResults := rfl

@[simp] theorem apply_budgetDeltas :
    (s.apply u).budgetDeltas = s.budgetDeltas ++ u.budgetDeltas := rfl

@[simp] theorem apply_budgetDeltasConsumed :
    (s.apply u).budgetDeltasConsumed = u.budgetDeltasConsumed.getD s.budgetDeltasConsumed := rfl

@[simp] theorem apply_aggregatedDiffPaths :
    (s.apply u).aggregatedDiffPaths = u.aggregatedDiffPaths.or s.aggregatedDiffPaths := rfl

@[simp] theorem apply_fullSuiteResult :
    (s.apply u).fullSuiteResult = u.fullSuiteResult.or s.fullSuiteResult := rfl

@[simp] theorem apply_prDraft : (s.apply u).prDraft = u.prDraft.or s.prDraft := rfl

@[simp] theorem apply_approvalStatus :
    (s.apply u).approvalStatus = u.approvalStatus.or s.approvalStatus := rfl

@[simp] theorem apply_retryRound :
    (s.apply u).retryRound = u.retryRound.getD s.retryRound := rfl

@[simp] theorem apply_humanFeedback :
    (s.apply u).humanFeedback = u.humanFeedback.or s.humanFeedback := rfl

@[simp] theorem applyAll_nil : s.applyAll [] = s := rfl

@[simp] theorem applyAll_cons (us : List Update) :
    s.applyAll (u :: us) = (s.apply u).applyAll us := rfl

end GraphState

/-! ### The task reducer -/

theorem mergeTaskLists_of_nodup {existing : List MigrationTask}
    (h : (existing.map MigrationTask.id).Nodup) (new : List MigrationTask) :
    mergeTaskLists existing new = upsertAll MigrationTask.id existing new := by
  rw [mergeTaskLists, collect_of_nodup h]

theorem nodup_mergeTaskLists (existing new : List MigrationTask) :
    ((mergeTaskLists existing new).map MigrationTask.id).Nodup :=
  nodup_keys_upsertAll (nodup_keys_collect existing) new

theorem mem_of_mem_mergeTaskLists {existing new : List MigrationTask} {t : MigrationTask}
    (h : t ∈ mergeTaskLists existing new) : t ∈ existing ∨ t ∈ new := by
  rcases mem_of_mem_upsertAll h with h | h
  · exact Or.inl (mem_of_mem_collect h)
  · exact Or.inr h

/-- On a list with distinct ids, an update of tasks already planned replaces them in
place, each by the last value given for it. -/
theorem mergeTaskLists_eq_map {existing new : List MigrationTask}
    (hnd : (existing.map MigrationTask.id).Nodup)
    (h : ∀ t ∈ new, t.id ∈ existing.map MigrationTask.id) :
    mergeTaskLists existing new =
      existing.map fun t => (last MigrationTask.id new t.id).getD t := by
  rw [mergeTaskLists_of_nodup hnd, upsertAll_eq_map hnd h]

end StackMigrate
