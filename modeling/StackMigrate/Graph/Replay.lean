import StackMigrate.Graph.Traces

/-!
# Concrete environments

A replay runs the graph against a fixed list of answers. The environments below are as
small as the graph allows: one service class a file, one file a task, a suite that
passes or fails as told.
-/

namespace StackMigrate

/-- Replay a list of inputs from a snapshot. -/
def replay [UnicodeData] (start : Snapshot) (inputs : List Input) : Option Snapshot :=
  graph.exec (fun _ _ _ => True) start inputs

theorem exists_run_of_replay [UnicodeData] {start : Snapshot} {inputs : List Input}
    {p : Snapshot → Bool} (h : (replay start inputs).any p = true) :
    ∃ c, graph.Run start inputs c ∧ p c = true :=
  DrivenSystem.exists_runWhere_of_exec h

/-- The run ended in a call of the publisher. -/
def endsPublishing (c : Snapshot) : Bool :=
  match c.trace with
  | .prPublish (.called _) :: _ => true
  | _ => false

theorem trace_of_endsPublishing {c : Snapshot} (h : endsPublishing c = true) :
    ∃ call earlier, c.trace = .prPublish (.called call) :: earlier := by
  unfold endsPublishing at h
  split at h
  · next call earlier htrace => exact ⟨call, earlier, htrace⟩
  · cases h

/-- Both readings of a gate at the same time. -/
def gateAt (now : ℚ) : GateReadings := ⟨now, now⟩

def demoConfig : MigrationRunConfig where
  runId := "run-1"
  sourceStack := "springboot"
  targetStack := "fastapi"
  scopeDescription := "orders"
  githubTargetRepo := some (.str "owner/shop")
  requireHumanApprovalBeforePr := some (.bool true)
  targetWorkspacePath := "/workspace"

/-- The same run with the approval switched off. -/
def unattendedConfig : MigrationRunConfig :=
  { demoConfig with requireHumanApprovalBeforePr := some (.bool false) }

def demoLimits : BudgetLimits := ⟨5, 500, 3600⟩

/-- A source file with one service class that names the services it uses. -/
def serviceFile (name : String) (dependsOn : List String) : ExtractionAnswer :=
  (⟨"", name ++ ".java", none, ""⟩,
    .responded (some { units := [⟨.service, name, .service ⟨name, dependsOn⟩⟩] }) (1 / 100))

/-- Extraction and planning of a list of service classes. -/
def planServices (files : List ExtractionAnswer) : List Input :=
  [.comprehension ⟨0, files⟩, .synthesis (gateAt 0)]

/-- A branch that writes one file. -/
def writesAt (now : ℚ) (path : String) : BranchInput :=
  ⟨now, now, now, .responded (some { files := [⟨path, "code", true⟩] }) (1 / 100) 0 0⟩

/-- A branch whose generation call raises. -/
def failsAt (now : ℚ) : BranchInput := ⟨now, now, now, .raised "RuntimeError()"⟩

/-- The target workspace before anything is written. -/
def demoWorkspace : FileSystem := (FileSystem.empty.makedirs ["workspace"]).1

/-- The workspace with some files in it. -/
def workspaceWith (files : List (String × String)) : FileSystem :=
  files.foldl (fun fs file => (fs.writeFile ["workspace", file.1] file.2).1) demoWorkspace

def suite (outcome : TestOutcome) : Input :=
  .sandboxTest ⟨demoWorkspace, .ok { outcome := outcome }⟩

/-- The pull request that the publisher answers with. -/
def demoPullRequest : PublishedPR := ⟨"pull/1", "stackmigrate/run-1", "0"⟩

def unlimitedBudget : BudgetState :=
  { maxUsd := 1000000000
    maxLlmCalls := 1000000000
    maxWallClockSeconds := 1000000000
    startedAt := 0 }

/-- A run that starts with the given plan, behind synthesis. -/
def startWith (tasks : List MigrationTask) : Snapshot :=
  planned (plannedState demoConfig unlimitedBudget 5 ⟨"springboot", "", [], [], []⟩ tasks)
    (gateAt 0)

end StackMigrate
