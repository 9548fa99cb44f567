import StackMigrate.Graph.Build

/-!
# Requests on their way to a worker

The API validates the body of a submission and puts the dumped request into the queue; a
worker, perhaps with another environment, validates it once more and starts the graph. The
queue carries Python's scalars through JSON unchanged.
-/

namespace StackMigrate

/-- A scalar in a JSON body. -/
inductive PayloadValue
  | none
  | bool (b : Bool)
  | int (n : ℤ)
  | float (x : ℚ)
  | str (s : String)
  deriving DecidableEq, Repr

abbrev Payload := List (String × PayloadValue)

/-- What the validation of a request depends on in a process. -/
structure Validation where
  /-- What the default factories of the limits return; `none` where a variable of the environment
  is no number. -/
  maxUsd : Option ℚ
  maxLlmCalls : Option ℤ
  maxWallClockSeconds : Option ℤ
  /-- The strings that are read as numbers. -/
  int? : String → Option ℤ := fun _ => none
  float? : String → Option ℚ := fun _ => none

/-- The limits where no variable is set. -/
def Validation.unset : Validation where
  maxUsd := some 5
  maxLlmCalls := some 500
  maxWallClockSeconds := some 3600

/-! ### Reading a field -/

namespace PayloadValue

variable (validation : Validation)

def toStr? : PayloadValue → Option String
  | str s => some s
  | _ => Option.none

/-- `str | None`. -/
def toOptionStr? : PayloadValue → Option (Option String)
  | none => some Option.none
  | str s => some (some s)
  | _ => Option.none

def toBool? : PayloadValue → Option Bool
  | bool b => some b
  | int n => if n = 0 then some false else if n = 1 then some true else Option.none
  | float x => if x = 0 then some false else if x = 1 then some true else Option.none
  | str s =>
    if s.toLower ∈ ["0", "off", "f", "false", "n", "no"] then some false
    else if s.toLower ∈ ["1", "on", "t", "true", "y", "yes"] then some true
    else Option.none
  | none => Option.none

/-- A float without a fraction is an integer, too. -/
def toInt? : PayloadValue → Option ℤ
  | bool b => some b.toInt
  | int n => some n
  | float x => if x.isInt then some x.num else Option.none
  | str s => validation.int? s
  | none => Option.none

def toFloat? : PayloadValue → Option ℚ
  | bool b => some b.toInt
  | int n => some n
  | float x => some x
  | str s => validation.float? s
  | none => Option.none

end PayloadValue

/-- One field of a model: a missing key gets the default, if there is one. -/
def Payload.field {α : Type} (payload : Payload) (name : String)
    (read : PayloadValue → Option α) (default? : Option α) : Option α :=
  match payload.lookup name with
  | some v => read v
  | none => default?

/-! ### Migration requests -/

structure MigrationRequest where
  sourceRepoUrl : String
  sourceRef : String := "main"
  sourceStack : String
  targetStack : String
  scopeDescription : String
  githubTargetRepo : Option String := none
  targetRepoUrl : Option String := none
  requireHumanApprovalBeforePr : Bool := true
  maxUsd : ℚ
  maxLlmCalls : ℤ
  maxWallClockSeconds : ℤ
  maxRetryRounds : ℤ := 5
  deriving DecidableEq, Repr

namespace MigrationRequest

/-- `MigrationRequest(**payload)`. -/
def validate (validation : Validation) (payload : Payload) : Option MigrationRequest := do
  let sourceRepoUrl ← payload.field "source_repo_url" PayloadValue.toStr? none
  let sourceRef ← payload.field "source_ref" PayloadValue.toStr? (some "main")
  let sourceStack ← payload.field "source_stack" PayloadValue.toStr? none
  let targetStack ← payload.field "target_stack" PayloadValue.toStr? none
  let scopeDescription ← payload.field "scope_description" PayloadValue.toStr? none
  let githubTargetRepo ← payload.field "github_target_repo" PayloadValue.toOptionStr? (some none)
  let targetRepoUrl ← payload.field "target_repo_url" PayloadValue.toOptionStr? (some none)
  let requireHumanApprovalBeforePr ←
    payload.field "require_human_approval_before_pr" PayloadValue.toBool? (some true)
  let maxUsd ← payload.field "max_usd" (PayloadValue.toFloat? validation) validation.maxUsd
  let maxLlmCalls ←
    payload.field "max_llm_calls" (PayloadValue.toInt? validation) validation.maxLlmCalls
  let maxWallClockSeconds ← payload.field "max_wall_clock_seconds"
    (PayloadValue.toInt? validation) validation.maxWallClockSeconds
  let maxRetryRounds ← payload.field "max_retry_rounds" (PayloadValue.toInt? validation) (some 5)
  return { sourceRepoUrl, sourceRef, sourceStack, targetStack, scopeDescription, githubTargetRepo,
           targetRepoUrl, requireHumanApprovalBeforePr, maxUsd, maxLlmCalls, maxWallClockSeconds,
           maxRetryRounds }

def optionValue : Option String → PayloadValue
  | some s => .str s
  | none => .none

/-- `request.model_dump()`. -/
def modelDump (r : MigrationRequest) : Payload :=
  [("source_repo_url", .str r.sourceRepoUrl), ("source_ref", .str r.sourceRef),
    ("source_stack", .str r.sourceStack), ("target_stack", .str r.targetStack),
    ("scope_description", .str r.scopeDescription),
    ("github_target_repo", optionValue r.githubTargetRepo),
    ("target_repo_url", optionValue r.targetRepoUrl),
    ("require_human_approval_before_pr", .bool r.requireHumanApprovalBeforePr),
    ("max_usd", .float r.maxUsd), ("max_llm_calls", .int r.maxLlmCalls),
    ("max_wall_clock_seconds", .int r.maxWallClockSeconds),
    ("max_retry_rounds", .int r.maxRetryRounds)]

theorem toOptionStr?_optionValue (o : Option String) :
    (optionValue o).toOptionStr? = some o := by
  cases o <;> rfl

/-- A dumped request is the same request in every process. -/
theorem validate_modelDump (validation : Validation) (r : MigrationRequest) :
    validate validation r.modelDump = some r := by
  have hfield : ∀ {α : Type} (name : String) (read : PayloadValue → Option α)
      (default? : Option α), r.modelDump.field name read default? =
        ((r.modelDump.lookup name).map read).getD default? := by
    intro α name read default?
    unfold Payload.field
    cases r.modelDump.lookup name <;> rfl
  simp only [validate, hfield]
  simp [modelDump, List.lookup_cons, toOptionStr?_optionValue, PayloadValue.toStr?,
    PayloadValue.toBool?, PayloadValue.toInt?, PayloadValue.toFloat?]

/-- The configuration of the run, with the two paths that the preparation returns. -/
def runConfig (r : MigrationRequest) (runId localCheckoutPath targetWorkspacePath : String) :
    MigrationRunConfig where
  runId := runId
  sourceStack := r.sourceStack
  targetStack := r.targetStack
  scopeDescription := r.scopeDescription
  githubTargetRepo := some (r.githubTargetRepo.elim .null .str)
  requireHumanApprovalBeforePr := some (.bool r.requireHumanApprovalBeforePr)
  localCheckoutPath := localCheckoutPath
  targetWorkspacePath := targetWorkspacePath

def limits (r : MigrationRequest) : BudgetLimits := ⟨r.maxUsd, r.maxLlmCalls, r.maxWallClockSeconds⟩

end MigrationRequest

/-! ### Keys -/

/-- `load_api_key`: the key that the API asks for, if it asks for one; or it does not start. -/
def loadApiKey (environ : String → Option String) : Except String (Option String) :=
  match environ "STACKMIGRATE_API_KEY" with
  | some key => if key ≠ "" then .ok (some key) else withoutKey
  | none => withoutKey
where
  withoutKey : Except String (Option String) :=
    if environ "STACKMIGRATE_ALLOW_NO_AUTH" = some "1" then .ok none
    else .error ("STACKMIGRATE_API_KEY is not set. Set it to a long random secret " ++
      "(e.g. `python -c \"import secrets; print(secrets.token_urlsafe(32))\"`). " ++
      "For local development only, STACKMIGRATE_ALLOW_NO_AUTH=1 disables authentication.")

/-- `require_api_key` lets the request through. -/
def admits (apiKey xApiKey : Option String) : Bool :=
  match apiKey with
  | none => true
  | some key => xApiKey = some key

end StackMigrate
