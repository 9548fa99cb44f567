import StackMigrate.Sandbox.FileSystem
import StackMigrate.State.Tasks

/-!
# Running the tests in containers

Two containers are run, one that installs the dependencies and one without a network that
runs the tests. What a container prints is cut to a length that is fit for a prompt before
anything else happens to it. The Docker daemon is a function from what it is asked to run to
what comes of it.
-/

namespace StackMigrate

/-! ### The FastAPI adapter -/

structure TargetTestAdapter where
  stackKey : String
  displayName : String
  baseDockerImage : String
  installCommand : List String
  testCommand : List String
  parseTestOutput : String → ℤ → TestOutcome × List String

/-- The class `\s` of a regular expression. -/
def isSpace (c : Char) : Bool :=
  (9 ≤ c.toNat && c.toNat ≤ 13) || (28 ≤ c.toNat && c.toNat ≤ 32) || c.toNat == 0x85 ||
    c.toNat == 0xA0 || c.toNat == 0x1680 || (0x2000 ≤ c.toNat && c.toNat ≤ 0x200A) ||
    c.toNat == 0x2028 || c.toNat == 0x2029 || c.toNat == 0x202F || c.toNat == 0x205F ||
    c.toNat == 0x3000

/-- `^FAILED (\S+)` at the beginning of a line. -/
def failedIdentifier (line : List Char) : Option (List Char) :=
  if "FAILED ".toList.isPrefixOf line then
    let identifier := (line.drop "FAILED ".length).takeWhile fun c => !isSpace c
    if identifier.isEmpty then none else some identifier
  else none

/-- `_FAILED_LINE_RE.findall`. No match goes on behind its line. -/
def findFailed (stdout : String) : List String :=
  ((stdout.toList.splitOn '\n').filterMap failedIdentifier).map String.ofList

/-- `parse_test_output`, by the exit codes of pytest. -/
def parseTestOutput (stdout : String) (exitCode : ℤ) : TestOutcome × List String :=
  let failing := findFailed stdout
  if exitCode = 0 then (.passed, [])
  else if exitCode = 5 then (.error, [])
  else if exitCode = 2 ∨ exitCode = 3 ∨ exitCode = 4 then (.error, failing)
  else (.failed, failing)

/-- `FastAPITargetAdapter`. -/
def fastApiTargetAdapter : TargetTestAdapter where
  stackKey := "fastapi"
  displayName := "FastAPI"
  baseDockerImage := "python:3.12-slim"
  installCommand := ["pip", "install", "--no-cache-dir", "-r", "requirements.txt"]
  testCommand := ["pytest", "-q", "--tb=short"]
  parseTestOutput := StackMigrate.parseTestOutput

/-! ### Containers -/

def maxCapturedOutputChars : ℕ := 20000

/-- `_truncate`. -/
def truncate (output : String) : String :=
  if output.toList.length ≤ maxCapturedOutputChars then output
  else String.ofList (output.toList.take maxCapturedOutputChars) ++ "\n... [truncated]"

structure SandboxLimits where
  memoryLimit : String := "512m"
  nanoCpus : ℤ := 1000000000
  pidsLimit : ℤ := 256
  installTimeoutSeconds : ℤ := 180
  testTimeoutSeconds : ℤ := 300

/-- One bind mount. -/
structure Volume where
  host : String
  bind : String
  mode : String

/-- The arguments of `containers.run`. -/
structure ContainerKwargs where
  image : String
  command : List String
  workingDir : String
  volumes : List Volume
  networkDisabled : Bool
  memLimit : String
  nanoCpus : ℤ
  pidsLimit : ℤ
  user : String
  capDrop : List String
  securityOpt : List String
  readOnly : Bool
  tmpfs : List (String × String)
  detach : Bool
  stdout : Bool
  stderr : Bool

/-- `_build_container_kwargs`. -/
def buildContainerKwargs (fs : FileSystem) (workspaceRoot image : String) (command : List String)
    (networkDisabled : Bool) (limits : SandboxLimits) : ContainerKwargs where
  image := image
  command := command
  workingDir := "/workspace"
  volumes := [⟨(fs.realpath workspaceRoot).toPath, "/workspace", "rw"⟩]
  networkDisabled := networkDisabled
  memLimit := limits.memoryLimit
  nanoCpus := limits.nanoCpus
  pidsLimit := limits.pidsLimit
  user := "1000:1000"
  capDrop := ["ALL"]
  securityOpt := ["no-new-privileges"]
  readOnly := true
  tmpfs := [("/tmp", "rw,size=256m")]
  detach := true
  stdout := true
  stderr := true

/-- What comes of a container. -/
inductive ContainerRun
  /-- It ended: its decoded logs, the entry `StatusCode` and the seconds it took. -/
  | exited (logs : String) (statusCode : Option ℤ) (duration : ℚ)
  /-- `wait` raised and the container was killed. -/
  | overran
  /-- The client raised elsewhere. -/
  | raised (exc : PyException)

inductive SandboxError
  | timeout (message : String)
  | other (exc : PyException)

abbrev Docker := ContainerKwargs → ContainerRun

/-- `_run_container`: the captured output, the exit code and the duration. -/
def runContainer (docker : Docker) (kwargs : ContainerKwargs) (timeoutSeconds : ℤ) :
    Except SandboxError (String × ℤ × ℚ) :=
  match docker kwargs with
  | .exited logs statusCode duration => .ok (truncate logs, statusCode.getD (-1), duration)
  | .overran =>
    .error (.timeout
      ("Sandbox container exceeded " ++ toString timeoutSeconds ++ "s timeout"))
  | .raised exc => .error (.other exc)

/-! ### The runner -/

structure SandboxRunResult where
  testResult : TestResult
  setupOutput : String
  setupSucceeded : Bool

def installKwargs (limits : SandboxLimits) (fs : FileSystem) (workspaceRoot : String)
    (adapter : TargetTestAdapter) : ContainerKwargs :=
  buildContainerKwargs fs workspaceRoot adapter.baseDockerImage adapter.installCommand false limits

def testKwargs (limits : SandboxLimits) (fs : FileSystem) (workspaceRoot : String)
    (adapter : TargetTestAdapter) : ContainerKwargs :=
  buildContainerKwargs fs workspaceRoot adapter.baseDockerImage adapter.testCommand true limits

/-- The part of `run` behind an installation that went well. -/
def runTests (limits : SandboxLimits) (docker : Docker) (fs : FileSystem) (workspaceRoot : String)
    (adapter : TargetTestAdapter) (taskId : Option String) (installOutput : String) :
    Except PyException SandboxRunResult :=
  match runContainer docker (testKwargs limits fs workspaceRoot adapter)
      limits.testTimeoutSeconds with
  | .error (.other exc) => .error exc
  | .error (.timeout message) =>
    .ok
      { testResult := { taskId := taskId, outcome := .timeout, rawOutput := message }
        setupOutput := installOutput
        setupSucceeded := true }
  | .ok (testOutput, testExit, testDuration) =>
    let parsed := adapter.parseTestOutput testOutput testExit
    .ok
      { testResult :=
          { taskId := taskId
            outcome := parsed.1
            rawOutput := testOutput
            failingTests := parsed.2
            durationSeconds := testDuration }
        setupOutput := installOutput
        setupSucceeded := true }

/-- `DockerSandboxRunner.run`. -/
def runSandbox (limits : SandboxLimits) (docker : Docker) (fs : FileSystem) (workspaceRoot : String)
    (adapter : TargetTestAdapter) (taskId : Option String) : Except PyException SandboxRunResult :=
  match runContainer docker (installKwargs limits fs workspaceRoot adapter)
      limits.installTimeoutSeconds with
  | .error (.other exc) => .error exc
  | .error (.timeout message) =>
    .ok
      { testResult := { taskId := taskId, outcome := .timeout, rawOutput := message }
        setupOutput := ""
        setupSucceeded := false }
  | .ok (installOutput, installExit, installDuration) =>
    if installExit ≠ 0 then
      .ok
        { testResult :=
            { taskId := taskId
              outcome := .error
              rawOutput := installOutput
              durationSeconds := installDuration }
          setupOutput := installOutput
          setupSucceeded := false }
    else runTests limits docker fs workspaceRoot adapter taskId installOutput

end StackMigrate
