import StackMigrate.Api.Decisions

/-!
# The status endpoint

The checkpointer may give back the records of the state as they were, or as plain dicts. The
endpoint reads fields and enumeration members in either shape, record by record.
-/

namespace StackMigrate

def TaskStatus.value : TaskStatus → String
  | pending => "pending"
  | inProgress => "in_progress"
  | succeeded => "succeeded"
  | failed => "failed"
  | retrying => "retrying"
  | skipped => "skipped"
  | needsHuman => "needs_human"

def TestOutcome.value : TestOutcome → String
  | passed => "passed"
  | failed => "failed"
  | error => "error"
  | timeout => "timeout"
  | notRun => "not_run"

/-! ### Values of a checkpoint -/

/-- What a checkpointer may give back. -/
inductive PyObj
  | none
  | int (n : ℤ)
  | float (x : ℚ)
  | str (s : String)
  /-- A member of a string enumeration. -/
  | enum (value : String)
  | list (items : List PyObj)
  | dict (entries : List (String × PyObj))
  /-- A record with its attributes. -/
  | model (attrs : List (String × PyObj))

namespace PyObj

/-- `_field`. -/
def field (obj : PyObj) (name : String) (default : PyObj := none) : PyObj :=
  match obj with
  | dict fields | model fields => (fields.lookup name).getD default
  | _ => default

/-- `_enum_value`. -/
def enumValue : PyObj → PyObj
  | enum value => str value
  | x => x

def truthy : PyObj → Bool
  | none => false
  | int n => n ≠ 0
  | float x => x ≠ 0
  | str s | enum s => s ≠ ""
  | list items => !items.isEmpty
  | dict entries => !entries.isEmpty
  | model _ => true

/-- The items of `x or []`; what is no list cannot be iterated over. -/
def items? (x : PyObj) : Option (List PyObj) :=
  if x.truthy then
    match x with
    | list items => some items
    | _ => Option.none
  else some []

/-! #### Validation of a response -/

def toStr? : PyObj → Option String
  | str s | enum s => some s
  | _ => Option.none

def toInt? : PyObj → Option ℤ
  | int n => some n
  | _ => Option.none

def toFloat? : PyObj → Option ℚ
  | float x => some x
  | int n => some n
  | _ => Option.none

/-- A field that may be `None`. -/
def optional {α : Type} (read : PyObj → Option α) : PyObj → Option (Option α)
  | none => some Option.none
  | x => (read x).map some

end PyObj

/-! ### Responses -/

structure TaskSummary where
  id : String
  status : String
  targetFiles : List String
  retryCount : ℤ
  deriving DecidableEq, Repr

structure PRDraftSummary where
  title : String
  branchName : String
  deriving DecidableEq, Repr

/-- What a reviewer needs to decide on a run. -/
structure PendingApproval where
  title : String
  body : String
  branchName : String
  files : List String
  deriving DecidableEq, Repr

structure MigrationStatusResponse where
  runId : String
  phase : Option String
  tasks : List TaskSummary
  budgetSpentUsd : Option ℚ
  budgetMaxUsd : Option ℚ
  budgetLlmCallsMade : Option ℤ
  budgetMaxLlmCalls : Option ℤ
  budgetMaxWallClockSeconds : Option ℤ
  fullSuiteOutcome : Option String
  prDraft : Option PRDraftSummary
  prUrl : Option String
  approvalStatus : Option String
  humanFeedback : Option String
  pendingApproval : Option PendingApproval
  errorLogTail : List String
  deriving DecidableEq, Repr

def taskSummary (t : PyObj) : Option TaskSummary := do
  let files ← (t.field "target_files").items?
  return { id := ← (t.field "id").toStr?
           status := ← (t.field "status").enumValue.toStr?
           targetFiles := ← files.mapM fun tf => (tf.field "path").toStr?
           retryCount := ← (t.field "retry_count" (.int 0)).toInt? }

def prDraftSummary (draft : PyObj) : Option (Option PRDraftSummary) :=
  if draft.truthy then do
    return some
      { title := ← (draft.field "title").toStr?
        branchName := ← (draft.field "branch_name").toStr? }
  else some none

def pendingApproval (awaitingApproval : Bool) (draft : PyObj) (paths : List PyObj) :
    Option (Option PendingApproval) :=
  if awaitingApproval && draft.truthy then do
    return some
      { title := ← (draft.field "title").toStr?
        body := ← (draft.field "body").toStr?
        branchName := ← (draft.field "branch_name").toStr?
        files := ← paths.mapM PyObj.toStr? }
  else some none

/-- `_state_to_status_response`; `none` where the response is not valid. -/
def stateToStatusResponse (runId : String) (values : List (String × PyObj))
    (awaitingApproval : Bool) : Option MigrationStatusResponse := do
  let get (name : String) := PyObj.field (.dict values) name
  let tasks ← (get "tasks").items?
  let budget := get "budget"
  let prDraft := get "pr_draft"
  let paths ← (get "aggregated_diff_paths").items?
  let errorLog ← (get "error_log").items?
  return {
    runId := runId
    phase := ← (get "phase").enumValue.optional PyObj.toStr?
    tasks := ← tasks.mapM taskSummary
    budgetSpentUsd := ← (budget.field "spent_usd").optional PyObj.toFloat?
    budgetMaxUsd := ← (budget.field "max_usd").optional PyObj.toFloat?
    budgetLlmCallsMade := ← (budget.field "llm_calls_made").optional PyObj.toInt?
    budgetMaxLlmCalls := ← (budget.field "max_llm_calls").optional PyObj.toInt?
    budgetMaxWallClockSeconds :=
      ← (budget.field "max_wall_clock_seconds").optional PyObj.toInt?
    fullSuiteOutcome :=
      ← ((get "full_suite_result").field "outcome").enumValue.optional PyObj.toStr?
    prDraft := ← prDraftSummary prDraft
    prUrl := ← (get "pr_url").optional PyObj.toStr?
    approvalStatus := ← (get "approval_status").optional PyObj.toStr?
    humanFeedback := ← (get "human_feedback").optional PyObj.toStr?
    pendingApproval := ← pendingApproval awaitingApproval prDraft paths
    -- the last twenty lines
    errorLogTail := ← (errorLog.drop (errorLog.length - 20)).mapM PyObj.toStr? }

inductive StatusAnswer
  | status (response : MigrationStatusResponse)
  | httpException (statusCode : ℕ) (detail : String)
  deriving DecidableEq, Repr

/-- `get_migration_status`; `restore` is what the checkpointer makes of a state it has stored. -/
def getMigrationStatus (restore : GraphState → List (String × PyObj))
    (checkpoint : Option Snapshot) (runId : String) : StatusAnswer :=
  let values := checkpoint.elim [] fun c => restore c.state
  if values.isEmpty then
    .httpException 404 ("No migration run found with id '" ++ runId ++ "'")
  else
    match stateToStatusResponse runId values (checkpoint.any isAwaitingApproval) with
    | some response => .status response
    | none => .httpException 500 "Internal Server Error"

/-! ### The status of a state -/

/-- The answer that the state stands for. -/
def statusOf (runId : String) (s : GraphState) (awaitingApproval : Bool) :
    MigrationStatusResponse where
  runId := runId
  phase := s.phase.map MigrationPhase.value
  tasks := s.tasks.map fun t =>
    ⟨t.id, t.status.value, t.targetFiles.map TargetFileSpec.path, t.retryCount⟩
  budgetSpentUsd := some s.budget.spentUsd
  budgetMaxUsd := some s.budget.maxUsd
  budgetLlmCallsMade := some s.budget.llmCallsMade
  budgetMaxLlmCalls := some s.budget.maxLlmCalls
  budgetMaxWallClockSeconds := some s.budget.maxWallClockSeconds
  fullSuiteOutcome := s.fullSuiteResult.map fun result => result.outcome.value
  prDraft := s.prDraft.map fun draft => ⟨draft.title, draft.branchName⟩
  prUrl := s.prUrl
  approvalStatus := s.approvalStatus
  humanFeedback := s.humanFeedback.bind fun
    | .str text => some text
    | _ => none
  pendingApproval :=
    if awaitingApproval then
      s.prDraft.map fun draft =>
        ⟨draft.title, draft.body, draft.branchName, s.aggregatedDiffPaths.getD []⟩
    else none
  errorLogTail := s.errorLog.drop (s.errorLog.length - 20)

/-! ### Shapes -/

namespace PyObj

/-- A record or a dict with the field. -/
def Has (obj : PyObj) (name : String) (value : PyObj) : Prop :=
  ∃ fields, (obj = model fields ∨ obj = dict fields) ∧ fields.lookup name = some value

/-- A member of an enumeration, or its string. -/
def IsMember (value : String) (x : PyObj) : Prop := x = enum value ∨ x = str value

/-- A key of the state: missing, `None` or present. -/
def IsKey {α : Type} (Shape : α → PyObj → Prop) (values : List (String × PyObj))
    (name : String) : Option α → Prop
  | Option.none => values.lookup name = Option.none ∨ values.lookup name = some none
  | some a => ∃ x, values.lookup name = some x ∧ Shape a x

end PyObj

structure IsTargetFile (file : TargetFileSpec) (x : PyObj) : Prop where
  path : x.Has "path" (.str file.path)

structure IsTask (t : MigrationTask) (x : PyObj) : Prop where
  id : x.Has "id" (.str t.id)
  status : ∃ status, x.Has "status" status ∧ PyObj.IsMember t.status.value status
  targetFiles : ∃ files, x.Has "target_files" (.list files) ∧
    List.Forall₂ IsTargetFile t.targetFiles files
  retryCount : x.Has "retry_count" (.int t.retryCount)

structure IsBudget (b : BudgetState) (x : PyObj) : Prop where
  spentUsd : x.Has "spent_usd" (.float b.spentUsd)
  maxUsd : x.Has "max_usd" (.float b.maxUsd)
  llmCallsMade : x.Has "llm_calls_made" (.int b.llmCallsMade)
  maxLlmCalls : x.Has "max_llm_calls" (.int b.maxLlmCalls)
  maxWallClockSeconds : x.Has "max_wall_clock_seconds" (.int b.maxWallClockSeconds)

structure IsDraft (draft : PRDraft) (x : PyObj) : Prop where
  title : x.Has "title" (.str draft.title)
  body : x.Has "body" (.str draft.body)
  branchName : x.Has "branch_name" (.str draft.branchName)

structure IsTestResult (result : TestResult) (x : PyObj) : Prop where
  outcome : ∃ outcome, x.Has "outcome" outcome ∧ PyObj.IsMember result.outcome.value outcome

/-- `None`, or a text. -/
inductive IsFeedback : Json → PyObj → Prop
  | null : IsFeedback .null .none
  | str (text : String) : IsFeedback (.str text) (.str text)

/-- Values that a checkpointer may give back for a state. A key with a reducer may be missing as
long as it is empty. -/
structure IsState (s : GraphState) (values : List (String × PyObj)) : Prop where
  tasks : (s.tasks = [] ∧ values.lookup "tasks" = none) ∨
    ∃ tasks, values.lookup "tasks" = some (.list tasks) ∧ List.Forall₂ IsTask s.tasks tasks
  budget : ∃ budget, values.lookup "budget" = some budget ∧ IsBudget s.budget budget
  phase : PyObj.IsKey (fun phase : MigrationPhase => PyObj.IsMember phase.value) values "phase"
    s.phase
  fullSuiteResult : PyObj.IsKey IsTestResult values "full_suite_result" s.fullSuiteResult
  prDraft : PyObj.IsKey IsDraft values "pr_draft" s.prDraft
  prUrl : PyObj.IsKey (fun url x => x = .str url) values "pr_url" s.prUrl
  approvalStatus : PyObj.IsKey (fun status x => x = .str status) values "approval_status"
    s.approvalStatus
  humanFeedback : PyObj.IsKey IsFeedback values "human_feedback" s.humanFeedback
  aggregatedDiffPaths : PyObj.IsKey (fun paths x => x = .list (paths.map .str)) values
    "aggregated_diff_paths" s.aggregatedDiffPaths
  errorLog : (s.errorLog = [] ∧ values.lookup "error_log" = none) ∨
    values.lookup "error_log" = some (.list (s.errorLog.map .str))

/-! ### Reading in any shape -/

section Reading

variable {α β γ : Type} {x : PyObj} {name value : String} {v : PyObj}
  {values : List (String × PyObj)}

namespace PyObj

@[simp] theorem toStr?_str (text : String) : (str text).toStr? = some text := rfl
@[simp] theorem toInt?_int (n : ℤ) : (int n).toInt? = some n := rfl

theorem field_of_has (h : x.Has name v) (default : PyObj) : x.field name default = v := by
  obtain ⟨fields, rfl | rfl, hfield⟩ := h <;> simp [field, hfield]

/-- Only records and dicts have fields. -/
theorem truthy_of_has (h : x.Has name v) : x.truthy = true := by
  obtain ⟨fields, rfl | rfl, hfield⟩ := h
  · rfl
  · cases fields with
    | nil => cases hfield
    | cons => rfl

theorem enumValue_of_isMember (h : IsMember value x) : x.enumValue = .str value := by
  rcases h with rfl | rfl <;> rfl

theorem items?_list (items : List PyObj) : (list items).items? = some items := by
  cases items <;> rfl

theorem mapM_of_forall₂ {R : α → β → Prop} {f : β → Option γ} {g : α → γ}
    (hf : ∀ a b, R a b → f b = some (g a)) {as : List α} {bs : List β}
    (h : List.Forall₂ R as bs) : bs.mapM f = some (as.map g) := by
  induction h with
  | nil => rfl
  | cons hab _ ih => simp [hf _ _ hab, ih]

theorem mapM_toStr? (texts : List String) : (texts.map str).mapM toStr? = some texts := by
  induction texts with
  | nil => rfl
  | cons text rest ih => simp only [List.map_cons, List.mapM_cons, ih]; rfl

/-- A reader that takes `None` for missing reads a key in any shape. -/
theorem read_of_isKey (read : PyObj → Option (Option β)) {Shape : α → PyObj → Prop}
    {g : α → Option β} {key : Option α} (h : IsKey Shape values name key)
    (hnone : read .none = some Option.none) (hread : ∀ a x, Shape a x → read x = some (g a)) :
    read ((dict values).field name) = some (key.bind g) := by
  cases key with
  | none => rcases h with h | h <;> simpa [field, h] using hnone
  | some a =>
    obtain ⟨x, hx, hshape⟩ := h
    simpa [field, hx] using hread a x hshape

end PyObj

open PyObj

theorem taskSummary_of_isTask {t : MigrationTask} (h : IsTask t x) :
    taskSummary x =
      some ⟨t.id, t.status.value, t.targetFiles.map TargetFileSpec.path, t.retryCount⟩ := by
  obtain ⟨hid, ⟨status, hstatus, hmember⟩, ⟨files, hfiles, hpaths⟩, hretry⟩ := h
  have hmapM : files.mapM (fun tf => (tf.field "path").toStr?) =
      some (t.targetFiles.map TargetFileSpec.path) :=
    mapM_of_forall₂ (fun file x hfile => by rw [field_of_has hfile.path]; rfl) hpaths
  simp [taskSummary, field_of_has hid, field_of_has hstatus, field_of_has hfiles,
    field_of_has hretry, enumValue_of_isMember hmember, items?_list, hmapM]

theorem prDraftSummary_of_isDraft {draft : PRDraft} (h : IsDraft draft x) :
    prDraftSummary x = some (some ⟨draft.title, draft.branchName⟩) := by
  rw [prDraftSummary, truthy_of_has h.title, if_pos rfl]
  simp [field_of_has h.title, field_of_has h.branchName]

theorem pendingApproval_of_isDraft {draft : PRDraft} (h : IsDraft draft x) (paths : List String) :
    pendingApproval true x (paths.map .str) =
      some (some ⟨draft.title, draft.body, draft.branchName, paths⟩) := by
  rw [pendingApproval, truthy_of_has h.title, Bool.true_and, if_pos rfl, mapM_toStr?]
  simp [field_of_has h.title, field_of_has h.body, field_of_has h.branchName]

/-- The list behind a key whose reducer starts with the empty list. -/
theorem items?_of_list (xs : List α) {items : List PyObj}
    (h : (xs = [] ∧ values.lookup name = Option.none) ∨ values.lookup name = some (.list items))
    (hnil : xs = [] → items = []) : ((dict values).field name).items? = some items := by
  rcases h with ⟨hxs, hmissing⟩ | hlist
  · rw [hnil hxs]
    simp [field, hmissing, items?, truthy]
  · simp [field, hlist, items?_list]

end Reading

/-- The answer does not depend on the shape of the checkpoint, and there always is one. -/
theorem stateToStatusResponse_of_isState {s : GraphState} {values : List (String × PyObj)}
    (h : IsState s values) (runId : String) (awaitingApproval : Bool) :
    stateToStatusResponse runId values awaitingApproval =
      some (statusOf runId s awaitingApproval) := by
  obtain ⟨budget, hbudget, hb⟩ := h.budget
  obtain ⟨tasks, htasks, hsummaries⟩ : ∃ tasks,
      ((PyObj.dict values).field "tasks").items? = some tasks ∧
        tasks.mapM taskSummary = some (statusOf runId s awaitingApproval).tasks := by
    rcases h.tasks with ⟨hnil, hmissing⟩ | ⟨tasks, hlist, hshape⟩
    · refine ⟨[], items?_of_list s.tasks (Or.inl ⟨hnil, hmissing⟩) fun _ => rfl, ?_⟩
      simp [statusOf, hnil]
    · refine ⟨tasks, items?_of_list s.tasks (Or.inr hlist) ?_, ?_⟩
      · intro hnil
        rw [hnil] at hshape
        cases hshape
        rfl
      · exact PyObj.mapM_of_forall₂ (fun t x (ht : IsTask t x) => taskSummary_of_isTask ht) hshape
  have hlog : ((PyObj.dict values).field "error_log").items? = some (s.errorLog.map .str) :=
    items?_of_list s.errorLog h.errorLog fun hnil => by rw [hnil]; rfl
  have hpaths : ((PyObj.dict values).field "aggregated_diff_paths").items? =
      some ((s.aggregatedDiffPaths.getD []).map .str) := by
    have hkey := h.aggregatedDiffPaths
    cases hpaths : s.aggregatedDiffPaths with
    | none =>
      rw [hpaths] at hkey
      rcases hkey with hkey | hkey <;> simp [PyObj.field, hkey, PyObj.items?, PyObj.truthy]
    | some paths =>
      rw [hpaths] at hkey
      obtain ⟨_, hlist, rfl⟩ := hkey
      simp [PyObj.field, hlist, PyObj.items?_list]
  have hphase : ((PyObj.dict values).field "phase").enumValue.optional PyObj.toStr? =
      some (s.phase.bind fun phase => some phase.value) :=
    PyObj.read_of_isKey (fun x => x.enumValue.optional PyObj.toStr?) h.phase rfl
      fun phase x hx => by rw [PyObj.enumValue_of_isMember hx]; rfl
  have hsuite : (((PyObj.dict values).field "full_suite_result").field "outcome").enumValue.optional
      PyObj.toStr? = some (s.fullSuiteResult.bind fun result => some result.outcome.value) :=
    PyObj.read_of_isKey (fun x => (x.field "outcome").enumValue.optional PyObj.toStr?)
      h.fullSuiteResult rfl fun result x hx => by
        obtain ⟨outcome, houtcome, hmember⟩ := hx.outcome
        rw [PyObj.field_of_has houtcome, PyObj.enumValue_of_isMember hmember]
        rfl
  have hurl : ((PyObj.dict values).field "pr_url").optional PyObj.toStr? =
      some (s.prUrl.bind some) :=
    PyObj.read_of_isKey (PyObj.optional PyObj.toStr?) h.prUrl rfl (by rintro url x rfl; rfl)
  have hstatus : ((PyObj.dict values).field "approval_status").optional PyObj.toStr? =
      some (s.approvalStatus.bind some) :=
    PyObj.read_of_isKey (PyObj.optional PyObj.toStr?) h.approvalStatus rfl
      (by rintro status x rfl; rfl)
  have hfeedback : ((PyObj.dict values).field "human_feedback").optional PyObj.toStr? =
      some (statusOf runId s awaitingApproval).humanFeedback :=
    PyObj.read_of_isKey (PyObj.optional PyObj.toStr?) h.humanFeedback rfl
      (by rintro feedback x (_ | _) <;> rfl)
  have hdraft : prDraftSummary ((PyObj.dict values).field "pr_draft") =
      some (s.prDraft.bind fun draft => some ⟨draft.title, draft.branchName⟩) :=
    PyObj.read_of_isKey prDraftSummary h.prDraft rfl fun _ _ hx => prDraftSummary_of_isDraft hx
  have hpending : pendingApproval awaitingApproval ((PyObj.dict values).field "pr_draft")
      ((s.aggregatedDiffPaths.getD []).map .str) =
        some (statusOf runId s awaitingApproval).pendingApproval := by
    cases awaitingApproval with
    | false => rfl
    | true =>
      have hbind : (statusOf runId s true).pendingApproval = s.prDraft.bind fun draft =>
          some ⟨draft.title, draft.body, draft.branchName, s.aggregatedDiffPaths.getD []⟩ :=
        Option.map_eq_bind
      rw [hbind]
      exact PyObj.read_of_isKey
        (fun x => pendingApproval true x ((s.aggregatedDiffPaths.getD []).map .str)) h.prDraft rfl
        fun _ _ hx => pendingApproval_of_isDraft hx _
  have hbudget' : (PyObj.dict values).field "budget" = budget := by simp [PyObj.field, hbudget]
  have htail : (((s.errorLog.map PyObj.str).drop ((s.errorLog.map PyObj.str).length - 20)).mapM
      PyObj.toStr?) = some (s.errorLog.drop (s.errorLog.length - 20)) := by
    rw [List.length_map, ← List.map_drop, PyObj.mapM_toStr?]
  simp only [stateToStatusResponse, Option.bind_eq_bind, Option.bind_some, htasks, hpaths, hlog,
    hsummaries, hphase, hsuite, hurl, hstatus, hfeedback, hdraft, hpending, htail, hbudget',
    PyObj.field_of_has hb.spentUsd, PyObj.field_of_has hb.maxUsd,
    PyObj.field_of_has hb.llmCallsMade, PyObj.field_of_has hb.maxLlmCalls,
    PyObj.field_of_has hb.maxWallClockSeconds]
  simp [statusOf, PyObj.optional, PyObj.toFloat?, PyObj.toInt?, Option.map_eq_bind]

/-! ### Two shapes -/

section Stored

variable (asDicts : Bool)

def storedRecord (fields : List (String × PyObj)) : PyObj :=
  if asDicts then .dict fields else .model fields

def storedMember (value : String) : PyObj := if asDicts then .str value else .enum value

def storedTask (t : MigrationTask) : PyObj :=
  storedRecord asDicts
    [("id", .str t.id), ("status", storedMember asDicts t.status.value),
      ("target_files", .list (t.targetFiles.map fun file =>
        storedRecord asDicts [("path", .str file.path), ("purpose", .str file.purpose)])),
      ("retry_count", .int t.retryCount)]

def storedBudget (b : BudgetState) : PyObj :=
  storedRecord asDicts
    [("spent_usd", .float b.spentUsd), ("max_usd", .float b.maxUsd),
      ("llm_calls_made", .int b.llmCallsMade), ("max_llm_calls", .int b.maxLlmCalls),
      ("max_wall_clock_seconds", .int b.maxWallClockSeconds)]

def storedDraft (draft : PRDraft) : PyObj :=
  storedRecord asDicts
    [("title", .str draft.title), ("body", .str draft.body),
      ("branch_name", .str draft.branchName), ("commit_message", .str draft.commitMessage)]

def storedFeedback : Json → PyObj
  | .str text => .str text
  | _ => .none

/-- All records of a state as they were, or all of them as dicts. -/
def storedState (s : GraphState) : List (String × PyObj) :=
  [("budget", storedBudget asDicts s.budget),
    ("phase", s.phase.elim .none fun phase => storedMember asDicts phase.value),
    ("tasks", .list (s.tasks.map (storedTask asDicts))),
    ("aggregated_diff_paths", s.aggregatedDiffPaths.elim .none fun paths =>
      .list (paths.map .str)),
    ("full_suite_result", s.fullSuiteResult.elim .none fun result =>
      storedRecord asDicts [("outcome", storedMember asDicts result.outcome.value)]),
    ("pr_draft", s.prDraft.elim .none (storedDraft asDicts)),
    ("pr_url", s.prUrl.elim .none .str), ("approval_status", s.approvalStatus.elim .none .str),
    ("human_feedback", s.humanFeedback.elim .none storedFeedback),
    ("error_log", .list (s.errorLog.map .str))]

theorem has_storedRecord {fields : List (String × PyObj)} {name : String} {v : PyObj}
    (h : fields.lookup name = some v) : (storedRecord asDicts fields).Has name v := by
  refine ⟨fields, ?_, h⟩
  cases asDicts <;> simp [storedRecord]

theorem isMember_storedMember (value : String) :
    PyObj.IsMember value (storedMember asDicts value) := by
  cases asDicts <;> simp [storedMember, PyObj.IsMember]

theorem isTask_storedTask (t : MigrationTask) : IsTask t (storedTask asDicts t) where
  id := has_storedRecord asDicts rfl
  status := ⟨_, has_storedRecord asDicts rfl, isMember_storedMember asDicts _⟩
  targetFiles := ⟨_, has_storedRecord asDicts rfl, by
    rw [List.forall₂_map_right_iff, List.forall₂_same]
    exact fun file _ => ⟨has_storedRecord asDicts rfl⟩⟩
  retryCount := has_storedRecord asDicts rfl

theorem isKey_elim {α : Type} {Shape : α → PyObj → Prop} {values : List (String × PyObj)}
    {name : String} {key : Option α} {stored : α → PyObj}
    (h : values.lookup name = some (key.elim .none stored))
    (hshape : ∀ a, key = some a → Shape a (stored a)) : PyObj.IsKey Shape values name key := by
  cases key with
  | none => exact Or.inr h
  | some a => exact ⟨stored a, h, hshape a rfl⟩

/-- In both shapes the endpoint finds the state. -/
theorem isState_storedState {s : GraphState} (hfeedback : ∀ feedback,
      s.humanFeedback = some feedback → feedback = .null ∨ ∃ text, feedback = .str text) :
    IsState s (storedState asDicts s) where
  tasks := Or.inr ⟨_, rfl, by
    rw [List.forall₂_map_right_iff, List.forall₂_same]
    exact fun t _ => isTask_storedTask asDicts t⟩
  budget := ⟨_, rfl, has_storedRecord asDicts rfl, has_storedRecord asDicts rfl,
    has_storedRecord asDicts rfl, has_storedRecord asDicts rfl, has_storedRecord asDicts rfl⟩
  phase := isKey_elim rfl fun phase _ => isMember_storedMember asDicts phase.value
  fullSuiteResult := isKey_elim rfl fun result _ =>
    ⟨_, has_storedRecord asDicts rfl, isMember_storedMember asDicts _⟩
  prDraft := isKey_elim rfl fun draft _ => ⟨has_storedRecord asDicts rfl,
    has_storedRecord asDicts rfl, has_storedRecord asDicts rfl⟩
  prUrl := isKey_elim rfl fun _ _ => rfl
  approvalStatus := isKey_elim rfl fun _ _ => rfl
  humanFeedback := isKey_elim rfl fun feedback hsome => by
    rcases hfeedback feedback hsome with rfl | ⟨text, rfl⟩
    · exact .null
    · exact .str text
  aggregatedDiffPaths := isKey_elim rfl fun _ _ => rfl
  errorLog := Or.inr rfl

end Stored

end StackMigrate
