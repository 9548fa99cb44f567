import StackMigrate.Core.Text
import StackMigrate.Graph.Diffs
import StackMigrate.Graph.Collaborators

/-!
# From the passing suite to the pull request

Aggregation drafts the pull request, the approval gate asks the reviewer, and
`pr_publish` checks once more before it calls the publisher.
-/

namespace StackMigrate

open KeyedList

/-! ### Aggregation -/

/-- The bullet of one diff in the body. -/
def changedFileLine (purpose : String) (diff : FileDiff) : String :=
  "- `" ++ diff.path ++ "`" ++ (if purpose = "" then "" else " — " ++ purpose)

/-- `task.target_files[0].purpose`, when there is such a task and such a file. -/
def purposeOf (tasks : List MigrationTask) (taskId : String) : String :=
  match lookup MigrationTask.id (collect MigrationTask.id tasks) taskId with
  | some task => (task.targetFiles.head?.map TargetFileSpec.purpose).getD ""
  | none => ""

/-- The section about ambiguities, bounded to fifteen notes. -/
def flaggedForReview (notes : List String) : List String :=
  if notes.isEmpty then []
  else
    ["", "## Flagged for review",
      "The migration analysis noted the following — please check these:"] ++
    (notes.take 15).map ("- " ++ ·) ++
    (if notes.length > 15 then
      ["- ...and " ++ toString (notes.length - 15) ++ " more (see full run log)."] else [])

/-- `_build_pr_draft`. -/
def buildPrDraft (config : MigrationRunConfig) (results : List EditorResult)
    (tasks : List MigrationTask) (comprehension : Option ComprehensionResult) : PRDraft :=
  let title := "Migrate " ++ config.scopeDescription ++ " (" ++ config.sourceStack ++ " → " ++
    config.targetStack ++ ")"
  let lines :=
    ["Automated migration from **" ++ config.sourceStack ++ "** to **" ++ config.targetStack ++
        "**.",
      "", "Scope: " ++ config.scopeDescription, "", "## Files changed"] ++
    (results.flatMap fun result =>
      result.diffs.map (changedFileLine (purposeOf tasks result.taskId))) ++
    flaggedForReview ((comprehension.map ComprehensionResult.unresolvedAmbiguities).getD []) ++
    ["", "---", "*Generated by stackmigrate. All test suites passed before this PR was opened. " ++
      "Please review before merging.*"]
  { title := title
    body := String.intercalate "\n" lines
    branchName := "stackmigrate/" ++ config.runId
    commitMessage := "stackmigrate: " ++ title }

/-- The paths that may not be published, each with the reason. -/
def unpublishablePaths [UnicodeData] (diffs : List FileDiff) : List (String × String) :=
  diffs.filterMap fun d => (publishablePathProblem d.path).map fun reason => (d.path, reason)

def aggregateNode [UnicodeData] (s : GraphState) : NodeResult Event :=
  let results := effectiveResults s.editorResults s.tasks
  let diffs := effectiveDiffs s.editorResults s.tasks
  let problems := unpublishablePaths diffs
  if diffs.isEmpty then
    { update := .ok
        { phase := some .failed
          errorLog := ["Aggregation found zero effective diffs despite a passing sandbox run — " ++
            "nothing to ship."] }
      record := .aggregate }
  else if problems.isEmpty then
    { update := .ok
        { aggregatedDiffPaths := some (diffs.map FileDiff.path)
          prDraft := some (buildPrDraft s.config results s.tasks s.comprehension)
          phase := some .aggregating }
      record := .aggregate }
  else
    { update := .ok
        { phase := some .failed
          errorLog := problems.map fun p =>
            "Refusing to aggregate — unpublishable path '" ++ p.1 ++ "': " ++ p.2 }
      record := .aggregate }

theorem unpublishablePaths_eq_nil_iff [UnicodeData] {diffs : List FileDiff} :
    unpublishablePaths diffs = [] ↔ ∀ d ∈ diffs, publishablePathProblem d.path = none := by
  simp [unpublishablePaths, List.filterMap_eq_nil_iff]

/-! ### Approval -/

def requestApprovalNode (_ : GraphState) : NodeResult Event :=
  { update := .ok { phase := some .awaitingApproval }, record := .requestApproval }

/-- The value handed to `interrupt`. -/
def interruptPayload (s : GraphState) : InterruptPayload :=
  { kind := "pr_approval"
    runId := s.config.runId
    title := s.prDraft.map PRDraft.title
    body := s.prDraft.map PRDraft.body
    branchName := s.prDraft.map PRDraft.branchName
    files := s.aggregatedDiffPaths.getD [] }

/-- Is the resume value a dict whose entry `approved` is `True` itself? -/
def isApproval : Json → Bool
  | .obj fields =>
    match Json.get? fields "approved" with
    | some (.bool true) => true
    | _ => false
  | _ => false

/-- `decision.get("feedback")`, for a decision that is a dict. -/
def feedbackOf : Json → Json
  | .obj fields => (Json.get? fields "feedback").getD .null
  | _ => .null

/-- The gate from its first line on, with the value it is resumed with. -/
def approvalGateNode (_ : GraphState) (decision : Json) : NodeResult Event :=
  let feedback := feedbackOf decision
  if isApproval decision then
    { update := .ok
        { approvalStatus := some "approved"
          humanFeedback := some feedback
          phase := some .prGeneration }
      record := .resume decision }
  else
    { update := .ok
        { approvalStatus := some "rejected"
          humanFeedback := some feedback
          phase := some .rejected
          errorLog := ["PR rejected by reviewer" ++
            (if feedback.truthy then ": " ++ feedback.pyStr else ".")] }
      record := .resume decision }

/-! ### Publication -/

/-- The call `publish_approved_pr` makes. The cache key it asks for first is no key of
the state, so the files are always computed. -/
def publishCall (s : GraphState) (draft : PRDraft) : PublishCall :=
  { repoFullName := s.config.githubTargetRepo.getD .null
    baseBranch := s.config.targetBaseBranch.getD "main"
    branchName := draft.branchName
    commitMessage := draft.commitMessage
    prTitle := draft.title
    prBody := draft.body
    files := effectiveDiffs s.editorResults s.tasks }

/-- `outcome` is what the publisher does when it is called; an exception is known by its
`repr`. -/
def publishApprovedPr (s : GraphState) (draft : PRDraft) (outcome : Except String PublishedPR) :
    NodeResult Event :=
  { update := .ok <| match outcome with
      | .error exc => { phase := some .failed, errorLog := ["PR publish failed: " ++ exc] }
      | .ok result =>
        { phase := some .done, prUrl := some result.url, prBranchName := some result.branchName }
    record := .prPublish (.called (publishCall s draft)) }

def prPublishNode (s : GraphState) (outcome : Except String PublishedPR) : NodeResult Event :=
  match s.prDraft with
  | none => { update := .ok {}, record := .prPublish .noDraft }
  | some draft =>
    if ¬ hasTargetRepo s then
      { update := .ok
          { phase := some .done
            errorLog :=
              ["No github_target_repo configured — migration complete, PR not opened."] }
        record := .prPublish .noTargetRepo }
    else if needsHumanApproval s && !routeAfterApproval s then
      { update := .ok
          { phase := some .failed
            errorLog :=
              ["Refusing to publish: human approval is required but was not recorded."] }
        record := .prPublish .refused }
    else publishApprovedPr s draft outcome

end StackMigrate
