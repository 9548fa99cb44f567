import StackMigrate.Core.Python

/-!
# Units, tasks and results

The records that travel through the migration graph: the semantic units that
comprehension extracts, the tasks that synthesis plans, and what editors, sandbox
and analyzer answer. Text that only ever reaches an LLM prompt is left out.
-/

namespace StackMigrate

inductive SemanticUnitKind
  | endpoint | service | dataModel | repository | middleware | config | utility
  deriving DecidableEq, Repr

/-- The string value of the enumeration member. -/
def SemanticUnitKind.value : SemanticUnitKind → String
  | endpoint => "endpoint"
  | service => "service"
  | dataModel => "data_model"
  | repository => "repository"
  | middleware => "middleware"
  | config => "config"
  | utility => "utility"

inductive TaskStatus
  | pending | inProgress | succeeded | failed | retrying | skipped | needsHuman
  deriving DecidableEq, Repr

inductive TestOutcome
  | passed | failed | error | timeout | notRun
  deriving DecidableEq, Repr

inductive MigrationPhase
  | comprehension | synthesisPlanning | editing | testing | errorAnalysis | aggregating
  | awaitingApproval | prGeneration | done | rejected | failed | abortedBudget | needsHuman
  deriving DecidableEq, Repr

/-! ### Intermediate representation -/

structure EndpointUnit where
  name : String
  requestBodyModel : Option String := none
  responseModel : Option String := none
  callsServices : List String := []
  deriving DecidableEq, Repr

structure ServiceUnit where
  name : String
  dependsOn : List String := []
  deriving DecidableEq, Repr

structure RepositoryUnit where
  name : String
  targetDataModel : String
  deriving DecidableEq, Repr

structure DataModelUnit where
  name : String
  relationships : List String := []
  deriving DecidableEq, Repr

structure MiddlewareUnit where
  name : String
  deriving DecidableEq, Repr

/-- The payload union. A plain dict has no `name` attribute and no references. -/
inductive UnitPayload
  | endpoint (u : EndpointUnit)
  | service (u : ServiceUnit)
  | dataModel (u : DataModelUnit)
  | repository (u : RepositoryUnit)
  | middleware (u : MiddlewareUnit)
  | dict
  deriving DecidableEq, Repr

/-- `getattr(payload, "name", None)`. -/
def UnitPayload.name? : UnitPayload → Option String
  | endpoint u => some u.name
  | service u => some u.name
  | dataModel u => some u.name
  | repository u => some u.name
  | middleware u => some u.name
  | dict => none

structure SemanticUnit where
  id : String
  kind : SemanticUnitKind
  sourceFiles : List String
  dependsOnUnitIds : List String := []
  payload : UnitPayload
  deriving DecidableEq, Repr

structure ComprehensionResult where
  sourceStack : String
  repoRoot : String
  units : List SemanticUnit
  globalNotes : List String := []
  unresolvedAmbiguities : List String := []
  deriving DecidableEq, Repr

/-! ### Tasks -/

structure TargetFileSpec where
  path : String
  purpose : String
  deriving DecidableEq, Repr

structure MigrationTask where
  id : String
  sourceUnitIds : List String := []
  targetFiles : List TargetFileSpec := []
  dependsOnTaskIds : List String := []
  status : TaskStatus := .pending
  retryCount : ℤ := 0
  maxRetries : ℤ := 3
  deriving DecidableEq, Repr

structure FileDiff where
  path : String
  content : String
  isNewFile : Bool := true
  deriving DecidableEq, Repr

structure EditorResult where
  taskId : String
  diffs : List FileDiff
  editorNotes : String := ""
  tokensUsed : ℤ := 0
  deriving DecidableEq, Repr

structure TestResult where
  taskId : Option String := none
  outcome : TestOutcome
  rawOutput : String := ""
  failingTests : List String := []
  durationSeconds : ℚ := 0
  deriving DecidableEq, Repr

/-- One verdict of the analyzer. The root cause and the fix instructions are read
by nobody in the graph. -/
structure ErrorAnalysis where
  taskId : String
  isRetryable : Bool
  deriving DecidableEq, Repr

structure PRDraft where
  title : String
  body : String
  branchName : String
  commitMessage : String
  deriving DecidableEq, Repr

structure PublishedPR where
  url : String
  branchName : String
  commitSha : String
  deriving DecidableEq, Repr

end StackMigrate
