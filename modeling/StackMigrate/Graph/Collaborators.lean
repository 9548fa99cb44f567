import StackMigrate.Graph.Routing

/-!
# What the environment answers, and what a run leaves on record

The extractor, the code generator, the analyzer, the sandbox runner, the publisher
and the reviewer answer as they like. Every superstep adds one event to the trace of
the run: the calls it made to them, kept also when the node then raised.
-/

namespace StackMigrate

/-! ### Answers -/

/-- One source file the adapter found in scope. -/
structure DiscoveredFile where
  path : String
  relativePath : String
  likelyKind : Option SemanticUnitKind := none
  content : String := ""
  deriving DecidableEq, Repr

structure RawExtractedUnit where
  kind : SemanticUnitKind
  name : String
  payload : UnitPayload
  deriving DecidableEq, Repr

structure FileExtractionResult where
  units : List RawExtractedUnit
  ambiguities : List String := []
  deriving DecidableEq, Repr

/-- What one awaited LLM call ends in: an exception, known by its `repr`, or a response
whose structured result is `none` when the output could not be parsed. -/
inductive LlmOutcome (α : Type)
  | raised (repr : String)
  | responded (result : Option α) (costUsd : ℚ) (inputTokens : ℤ := 0) (outputTokens : ℤ := 0)
  deriving Repr

structure EditorGenerationResult where
  files : List FileDiff
  notes : String := ""
  deriving Repr

structure ErrorAnalysisLLMResult where
  analyses : List ErrorAnalysis
  unattributableSummary : String := ""
  deriving Repr

/-! ### Events -/

structure ExtractionCall where
  relativePath : String
  costUsd : Option ℚ
  deriving Repr

inductive BranchOutcome
  | skipped
  | failed
  | succeeded (result : EditorResult) (costUsd : ℚ)
  /-- The branch itself raised after its call had returned. -/
  | crashed (costUsd : ℚ)
  deriving Repr

structure BranchRecord where
  task : MigrationTask
  outcome : BranchOutcome
  deriving Repr

inductive SandboxVisit
  | noDiffs
  /-- Removing or applying raised `UnsafeDiffPathError`. -/
  | unsafePath
  /-- Another exception came out before the runner was reached. -/
  | crashed
  /-- The diffs were applied and the runner was executed; `none` when it raised. -/
  | ran (applied : List FileDiff) (result : Option TestResult)
  deriving Repr

inductive AnalyzerCall
  | notCalled
  | raised
  | returned (costUsd : ℚ)
  deriving Repr

/-- What the reviewer sees. -/
structure InterruptPayload where
  kind : String
  runId : String
  title : Option String
  body : Option String
  branchName : Option String
  files : List String
  deriving Repr

/-- The keyword arguments of one `publisher.publish` call. -/
structure PublishCall where
  repoFullName : Json
  baseBranch : String
  branchName : String
  commitMessage : String
  prTitle : String
  prBody : String
  files : List FileDiff
  deriving Repr

/-- The branch `pr_publish` took. -/
inductive PublishOutcome
  | noDraft
  | noTargetRepo
  | refused
  | called (args : PublishCall)
  deriving Repr

inductive Event
  | comprehension (calls : List ExtractionCall) (stoppedEarly : Bool)
  | synthesis
  | wave (branches : List BranchRecord)
  | budgetReconcile
  | sandboxTest (visit : SandboxVisit)
  | errorAnalysis (call : AnalyzerCall)
  | aggregate
  | requestApproval
  | interrupt (payload : InterruptPayload)
  | resume (decision : Json)
  | prPublish (outcome : PublishOutcome)
  | budgetAbort
  deriving Repr

/-- What one node execution comes to: its update, unless it raised, and its record. -/
structure NodeResult (ρ : Type) where
  update : Except PyException Update
  record : ρ

end StackMigrate
