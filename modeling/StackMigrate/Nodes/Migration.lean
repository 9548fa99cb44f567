import StackMigrate.Graph.Diffs
import StackMigrate.Graph.Collaborators
import StackMigrate.Sandbox.Workspace

/-!
# The nodes of the migration loop

One editor branch per dispatched task, the reconciliation of what the wave cost, the
sandbox run of the effective files, the error analysis that decides retry or
escalation, and the abort that ends a run without budget.
-/

namespace StackMigrate

open KeyedList

/-! ### Editor -/

/-- `now` is the reading of the exhausted check. The skip message asks for the reason
again, with readings of its own. -/
structure BranchInput where
  now : ℚ
  reasonNow : ℚ
  reasonLater : ℚ
  outcome : LlmOutcome EditorGenerationResult

/-- The task after a generation failure. -/
def failedTask (task : MigrationTask) : MigrationTask :=
  { task with
    status := if task.retryCount + 1 > task.maxRetries then .needsHuman else .retrying
    retryCount := task.retryCount + 1 }

def editorNode (send : Send) (i : BranchInput) : NodeResult BranchRecord :=
  let task := send.currentTask
  if send.budget.isExhausted i.now then
    { update := .ok
        { tasks := some [{ task with status := .skipped }]
          errorLog := ["Editor skipped '" ++ task.id ++ "': budget already exhausted (" ++
            (send.budget.exhaustedReason i.reasonNow i.reasonLater).getD "None" ++ ")."] }
      record := ⟨task, .skipped⟩ }
  else
    match i.outcome with
    | .raised exc =>
      { update := .ok
          { tasks := some [failedTask task]
            errorLog := ["Editor generation failed for '" ++ task.id ++ "': " ++ exc] }
        record := ⟨task, .failed⟩ }
    | .responded none costUsd _ _ =>
      { update := .error (.attributeError "'NoneType' object has no attribute 'files'")
        record := ⟨task, .crashed costUsd⟩ }
    | .responded (some generated) costUsd inputTokens outputTokens =>
      let result : EditorResult :=
        { taskId := task.id
          diffs := generated.files
          editorNotes := generated.notes
          tokensUsed := inputTokens + outputTokens }
      { update := .ok
          { tasks := some [{ task with status := .succeeded }]
            editorResults := [result]
            budgetDeltas := [costUsd] }
        record := ⟨task, .succeeded result costUsd⟩ }

/-! ### Budget reconcile -/

def budgetReconcileNode (s : GraphState) : NodeResult Event :=
  { update := .ok
      { budget := some (s.budget.recordAll (s.budgetDeltas.drop s.budgetDeltasConsumed))
        budgetDeltasConsumed := some s.budgetDeltas.length }
    record := .budgetReconcile }

/-! ### Sandbox -/

/-- The file system as this visit finds it, and what the runner answers if it is
executed. -/
structure SandboxInput where
  fs : FileSystem
  runner : Except PyException TestResult

/-- `get_target_test_adapter`: one adapter is registered. -/
def getTargetTestAdapter (stackKey : String) : Except PyException Unit :=
  if stackKey = "fastapi" then .ok ()
  else
    .error (.valueError
      ("No target test adapter registered for stack '" ++ stackKey ++ "'. Available: fastapi"))

/-- `remove_paths` of the stale paths followed by `apply_diffs` of the effective ones. -/
def stageWorkspace (fs : FileSystem) (s : GraphState) : FsResult (List String) :=
  let root := s.config.targetWorkspacePath
  match removePaths fs root (stalePaths s.editorResults s.tasks) with
  | (fs', .error e) => (fs', .error e)
  | (fs', .ok _) => applyDiffs fs' root (effectiveDiffs s.editorResults s.tasks)

def sandboxTestNode (s : GraphState) (i : SandboxInput) : NodeResult Event :=
  let diffs := effectiveDiffs s.editorResults s.tasks
  if diffs.isEmpty then
    { update := .ok
        { phase := some .errorAnalysis
          errorLog := ["Sandbox skipped: no editor diffs were available to apply."] }
      record := .sandboxTest .noDiffs }
  else
    match (stageWorkspace i.fs s).2 with
    | .error (.unsafeDiffPathError message) =>
      { update := .ok
          { phase := some .failed
            errorLog := ["Refused to apply editor diffs — unsafe path: " ++ message] }
        record := .sandboxTest .unsafePath }
    | .error e => { update := .error e, record := .sandboxTest .crashed }
    | .ok _ =>
      match getTargetTestAdapter s.config.targetStack with
      | .error e => { update := .error e, record := .sandboxTest .crashed }
      | .ok () =>
        match i.runner with
        | .error e => { update := .error e, record := .sandboxTest (.ran diffs none) }
        | .ok testResult =>
          { update := .ok
              { testResults := [testResult]
                fullSuiteResult := some testResult
                phase := some
                  (if testResult.outcome = .passed then .aggregating else .errorAnalysis) }
            record := .sandboxTest (.ran diffs (some testResult)) }

/-! ### Error analysis -/

def defaultMaxRetryRounds : ℤ := 5

/-- `state.get("max_retry_rounds") or max_retry_rounds_default`. -/
def effectiveMaxRounds (s : GraphState) : ℤ :=
  match s.maxRetryRounds with
  | some n => if n ≠ 0 then n else defaultMaxRetryRounds
  | none => defaultMaxRetryRounds

/-- The tasks that have succeeded and have code in the test run. -/
def candidateTasks (s : GraphState) : List MigrationTask :=
  s.tasks.filter fun t => t.status = .succeeded && t.id ∈ s.editorResults.map EditorResult.taskId

def escalate (tasks : List MigrationTask) : List MigrationTask :=
  tasks.map fun t => { t with status := .needsHuman }

/-- One blamed task: retried unless a cap is hit or the verdict says otherwise. -/
def blamedTask (roundCapHit : Bool) (analysis : ErrorAnalysis) (task : MigrationTask) :
    MigrationTask :=
  { task with
    status :=
      if roundCapHit ∨ ¬ analysis.isRetryable ∨ task.retryCount + 1 > task.maxRetries then
        .needsHuman
      else .retrying
    retryCount := task.retryCount + 1 }

/-- The list `updated_tasks`. A verdict about a task that was not offered is ignored. -/
def blamedTasks (roundCapHit : Bool) (candidates : List MigrationTask)
    (analyses : List ErrorAnalysis) : List MigrationTask :=
  analyses.filterMap fun analysis =>
    (lookup MigrationTask.id (collect MigrationTask.id candidates) analysis.taskId).map
      (blamedTask roundCapHit analysis)

structure AnalysisInput where
  now : ℚ
  outcome : LlmOutcome ErrorAnalysisLLMResult

/-- Whether this round reaches the cap. -/
def roundCapHit (s : GraphState) : Bool := s.retryRound + 1 ≥ effectiveMaxRounds s

def errorAnalysisNode (s : GraphState) (i : AnalysisInput) : NodeResult Event :=
  let retryRound := s.retryRound + 1
  let candidates := candidateTasks s
  if s.fullSuiteResult.isNone || candidates.isEmpty then
    { update := .ok
        { phase := some .needsHuman
          retryRound := some retryRound
          errorLog := ["Error analysis could not run: no test result and/or no candidate " ++
            "tasks with code to blame."] }
      record := .errorAnalysis .notCalled }
  else if s.budget.isExhausted i.now then
    { update := .ok
        { tasks := some (escalate candidates)
          phase := some .needsHuman
          retryRound := some retryRound
          errorLog :=
            ["Error analysis skipped and all candidate tasks escalated: budget exhausted."] }
      record := .errorAnalysis .notCalled }
  else
    match i.outcome with
    | .raised exc =>
      { update := .ok
          { tasks := some (escalate candidates)
            phase := some .needsHuman
            retryRound := some retryRound
            errorLog := ["Error analysis call failed, escalating all candidates: " ++ exc] }
        record := .errorAnalysis .raised }
    | .responded none costUsd _ _ =>
      { update := .error (.attributeError "'NoneType' object has no attribute 'analyses'")
        record := .errorAnalysis (.returned costUsd) }
    | .responded (some result) costUsd _ _ =>
      let updatedTasks := blamedTasks (roundCapHit s) candidates result.analyses
      { update := .ok
          { phase := some
              (if updatedTasks.any fun t => t.status = .retrying then .editing else .needsHuman)
            retryRound := some retryRound
            budget := some (s.budget.recordCall costUsd)
            tasks := if updatedTasks.isEmpty then none else some updatedTasks
            errorLog :=
              if result.analyses.isEmpty then
                ["Error analysis could not attribute the failure to a specific task: " ++
                  (if result.unattributableSummary = "" then "(no explanation given)"
                    else result.unattributableSummary)]
              else [] }
        record := .errorAnalysis (.returned costUsd) }

/-! ### Budget abort -/

/-- `_UNFINISHED`. -/
def TaskStatus.unfinished : TaskStatus → Bool
  | pending | retrying | inProgress => true
  | _ => false

def skippedTasks (tasks : List MigrationTask) : List MigrationTask :=
  (tasks.filter fun t => t.status.unfinished).map fun t => { t with status := .skipped }

/-- The readings are those of the reason that the log line shows. -/
def budgetAbortNode (s : GraphState) (now later : ℚ) : NodeResult Event :=
  let skipped := skippedTasks s.tasks
  { update := .ok
      { phase := some .abortedBudget
        errorLog := ["Run aborted: " ++
          (s.budget.exhaustedReason now later).getD "budget exhausted" ++ ". " ++
          toString skipped.length ++ " task(s) were not completed."]
        tasks := if skipped.isEmpty then none else some skipped }
    record := .budgetAbort }

end StackMigrate
