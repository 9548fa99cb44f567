import StackMigrate.Nodes.Comprehension
import StackMigrate.Nodes.Migration
import StackMigrate.Nodes.Publication
import StackMigrate.Nodes.Synthesis

/-!
# The ways through each node

For every node with branches, the list of its outcomes that do not raise: the record it
leaves, the update it returns, and what is known on that branch. Nothing after this
module unfolds a node.
-/

namespace StackMigrate

variable {s : GraphState} {u : Update}

/-! ### Comprehension -/

inductive ComprehensionPass [UnicodeData] (s : GraphState) (answer : ComprehensionInput) :
    Event → Update → Prop
  | exhausted (log : List String) (hexhausted : s.budget.isExhausted answer.now = true) :
      ComprehensionPass s answer (.comprehension [] false)
        { phase := some .abortedBudget, errorLog := log }
  | ran (st : ExtractionState) (run : ComprehensionRun)
      (hleft : s.budget.isExhausted answer.now = false)
      (hrun : runComprehension s.config.localCheckoutPath s.config.scopeDescription
        s.config.sourceStack s.budget.remainingUsd answer.answers = (st, .ok run)) :
      ComprehensionPass s answer (.comprehension st.calls st.stoppedEarly)
        { comprehension := some run.result
          phase := some (if run.result.units.isEmpty then .failed else .synthesisPlanning)
          budget := some (s.budget.recordCall run.totalCost 1 false)
          errorLog := run.errorLog }

theorem comprehensionNode_pass [UnicodeData] {answer : ComprehensionInput}
    (hu : (comprehensionNode s answer).update = .ok u) :
    ComprehensionPass s answer (comprehensionNode s answer).record u := by
  cases hex : s.budget.isExhausted answer.now with
  | true =>
    simp only [comprehensionNode, hex, if_true, Except.ok.injEq] at hu ⊢
    subst hu
    exact .exhausted _ hex
  | false =>
    rcases hrun : runComprehension s.config.localCheckoutPath s.config.scopeDescription
      s.config.sourceStack s.budget.remainingUsd answer.answers with ⟨st, exc | run⟩
    · simp [comprehensionNode, hex, hrun, Except.map] at hu
    · simp only [comprehensionNode, hex, hrun, Bool.false_eq_true, if_false, Except.map,
        Except.ok.injEq] at hu ⊢
      subst hu
      exact .ran st run hex hrun

/-! ### Synthesis -/

inductive SynthesisPass (s : GraphState) : Update → Prop
  | noPlan (log : List String) : SynthesisPass s { phase := some .failed, errorLog := log }
  | planned (comprehension : ComprehensionResult) (hcomp : s.comprehension = some comprehension)
      (hunits : comprehension.units ≠ []) :
      SynthesisPass s { tasks := some (runSynthesis comprehension), phase := some .editing }

theorem synthesisNode_pass (hu : (synthesisNode s).update = .ok u) : SynthesisPass s u := by
  unfold synthesisNode at hu
  split at hu
  · next comprehension hcomp =>
    split at hu
    · cases hu
      exact .noPlan _
    · next hunits =>
      simp only [getTargetSynthesisAdapter] at hu
      split at hu
      · cases hu
        exact .planned _ hcomp (by simpa using hunits)
      · cases hu
  · cases hu
    exact .noPlan _

/-! ### Sandbox -/

inductive SandboxPass (s : GraphState) (answer : SandboxInput) : Event → Update → Prop
  | noDiffs (log : List String) (hdiffs : effectiveDiffs s.editorResults s.tasks = []) :
      SandboxPass s answer (.sandboxTest .noDiffs)
        { phase := some .errorAnalysis, errorLog := log }
  | unsafePath (log : List String) (hdiffs : effectiveDiffs s.editorResults s.tasks ≠ []) :
      SandboxPass s answer (.sandboxTest .unsafePath) { phase := some .failed, errorLog := log }
  | ran (result : TestResult) (hdiffs : effectiveDiffs s.editorResults s.tasks ≠ [])
      (hrunner : answer.runner = .ok result) :
      SandboxPass s answer
        (.sandboxTest (.ran (effectiveDiffs s.editorResults s.tasks) (some result)))
        { testResults := [result]
          fullSuiteResult := some result
          phase := some (if result.outcome = .passed then .aggregating else .errorAnalysis) }

theorem sandboxTestNode_pass {answer : SandboxInput}
    (hu : (sandboxTestNode s answer).update = .ok u) :
    SandboxPass s answer (sandboxTestNode s answer).record u := by
  by_cases hdiffs : effectiveDiffs s.editorResults s.tasks = []
  · simp only [sandboxTestNode, hdiffs, List.isEmpty_nil, if_true, Except.ok.injEq] at hu ⊢
    subst hu
    exact .noDiffs _ hdiffs
  have hne : (effectiveDiffs s.editorResults s.tasks).isEmpty = false := by simpa using hdiffs
  rcases hstage : (stageWorkspace answer.fs s).2 with exc | written
  · cases exc with
    | unsafeDiffPathError message =>
      simp only [sandboxTestNode, hne, hstage, Bool.false_eq_true, if_false,
        Except.ok.injEq] at hu ⊢
      subst hu
      exact .unsafePath _ hdiffs
    | _ => simp [sandboxTestNode, hne, hstage] at hu
  · rcases hadapter : getTargetTestAdapter s.config.targetStack with exc | ok
    · simp [sandboxTestNode, hne, hstage, hadapter] at hu
    · rcases hrunner : answer.runner with exc | result
      · simp [sandboxTestNode, hne, hstage, hadapter, hrunner] at hu
      · simp only [sandboxTestNode, hne, hstage, hadapter, hrunner, Bool.false_eq_true,
          if_false, Except.ok.injEq] at hu ⊢
        subst hu
        exact .ran result hdiffs hrunner

/-! ### Error analysis -/

inductive AnalysisPass (s : GraphState) (answer : AnalysisInput) : Event → Update → Prop
  | nothingToBlame (log : List String)
      (hnone : s.fullSuiteResult = none ∨ candidateTasks s = []) :
      AnalysisPass s answer (.errorAnalysis .notCalled)
        { phase := some .needsHuman
          retryRound := some (s.retryRound + 1)
          errorLog := log }
  | exhausted (log : List String) (hexhausted : s.budget.isExhausted answer.now = true) :
      AnalysisPass s answer (.errorAnalysis .notCalled)
        { tasks := some (escalate (candidateTasks s))
          phase := some .needsHuman
          retryRound := some (s.retryRound + 1)
          errorLog := log }
  | callFailed (log : List String) (exc : String)
      (hleft : s.budget.isExhausted answer.now = false) (houtcome : answer.outcome = .raised exc) :
      AnalysisPass s answer (.errorAnalysis .raised)
        { tasks := some (escalate (candidateTasks s))
          phase := some .needsHuman
          retryRound := some (s.retryRound + 1)
          errorLog := log }
  | answered (log : List String) (result : ErrorAnalysisLLMResult) (costUsd : ℚ)
      (inputTokens outputTokens : ℤ) (hsuite : s.fullSuiteResult ≠ none)
      (hleft : s.budget.isExhausted answer.now = false)
      (houtcome : answer.outcome = .responded (some result) costUsd inputTokens outputTokens) :
      AnalysisPass s answer (.errorAnalysis (.returned costUsd))
        { phase := some
            (if (blamedTasks (roundCapHit s) (candidateTasks s) result.analyses).any
                fun t => t.status = .retrying then .editing else .needsHuman)
          retryRound := some (s.retryRound + 1)
          budget := some (s.budget.recordCall costUsd)
          tasks :=
            if (blamedTasks (roundCapHit s) (candidateTasks s) result.analyses).isEmpty then none
            else some (blamedTasks (roundCapHit s) (candidateTasks s) result.analyses)
          errorLog := log }

theorem errorAnalysisNode_pass {answer : AnalysisInput}
    (hu : (errorAnalysisNode s answer).update = .ok u) :
    AnalysisPass s answer (errorAnalysisNode s answer).record u := by
  by_cases hnone : s.fullSuiteResult = none ∨ candidateTasks s = []
  · have hcond : (s.fullSuiteResult.isNone || (candidateTasks s).isEmpty) = true := by
      simpa using hnone
    simp only [errorAnalysisNode, hcond, if_true, Except.ok.injEq] at hu ⊢
    subst hu
    exact .nothingToBlame _ hnone
  have hcond : (s.fullSuiteResult.isNone || (candidateTasks s).isEmpty) = false := by
    simpa [Option.isSome_iff_ne_none] using hnone
  cases hex : s.budget.isExhausted answer.now with
  | true =>
    simp only [errorAnalysisNode, hcond, hex, Bool.false_eq_true, if_false, if_true,
      Except.ok.injEq] at hu ⊢
    subst hu
    exact .exhausted _ hex
  | false =>
    rcases hout : answer.outcome with exc | ⟨_ | result, costUsd, inputTokens, outputTokens⟩
    · simp only [errorAnalysisNode, hcond, hex, hout, Bool.false_eq_true, if_false,
        Except.ok.injEq] at hu ⊢
      subst hu
      exact .callFailed _ exc hex hout
    · simp [errorAnalysisNode, hcond, hex, hout] at hu
    · simp only [errorAnalysisNode, hcond, hex, hout, Bool.false_eq_true, if_false,
        Except.ok.injEq] at hu ⊢
      subst hu
      exact .answered _ result costUsd _ _ (fun h => hnone (Or.inl h)) hex hout

/-! ### Aggregation -/

inductive AggregatePass [UnicodeData] (s : GraphState) : Update → Prop
  | refused (log : List String) : AggregatePass s { phase := some .failed, errorLog := log }
  | drafted (draft : PRDraft) (hdiffs : effectiveDiffs s.editorResults s.tasks ≠ [])
      (hpaths : ∀ d ∈ effectiveDiffs s.editorResults s.tasks,
        publishablePathProblem d.path = none) :
      AggregatePass s
        { aggregatedDiffPaths :=
            some ((effectiveDiffs s.editorResults s.tasks).map FileDiff.path)
          prDraft := some draft
          phase := some .aggregating }

theorem aggregateNode_pass [UnicodeData] (s : GraphState) :
    (aggregateNode s).record = .aggregate ∧
      ∃ u, (aggregateNode s).update = .ok u ∧ AggregatePass s u := by
  simp only [aggregateNode]
  split
  · exact ⟨rfl, _, rfl, .refused _⟩
  · next hdiffs =>
    split
    · next hproblems =>
      refine ⟨rfl, _, rfl, .drafted _ (by simpa using hdiffs) ?_⟩
      exact unpublishablePaths_eq_nil_iff.mp (by simpa using hproblems)
    · exact ⟨rfl, _, rfl, .refused _⟩

/-! ### Approval -/

inductive DecisionPass (decision : Json) : Update → Prop
  | approved (happroved : isApproval decision = true) :
      DecisionPass decision
        { approvalStatus := some "approved"
          humanFeedback := some (feedbackOf decision)
          phase := some .prGeneration }
  | rejected (log : List String) (hrejected : isApproval decision = false) :
      DecisionPass decision
        { approvalStatus := some "rejected"
          humanFeedback := some (feedbackOf decision)
          phase := some .rejected
          errorLog := log }

theorem approvalGateNode_pass (s : GraphState) (decision : Json) :
    (approvalGateNode s decision).record = .resume decision ∧
      ∃ u, (approvalGateNode s decision).update = .ok u ∧ DecisionPass decision u := by
  cases happ : isApproval decision with
  | true =>
    simp only [approvalGateNode, happ, if_true]
    exact ⟨trivial, _, rfl, .approved happ⟩
  | false =>
    simp only [approvalGateNode, happ, Bool.false_eq_true, if_false]
    exact ⟨trivial, _, rfl, .rejected _ happ⟩

inductive PublishPass (s : GraphState) (outcome : Except String PublishedPR) :
    PublishOutcome → Update → Prop
  | noDraft (hdraft : s.prDraft = none) : PublishPass s outcome .noDraft {}
  | noTargetRepo (log : List String) (hrepo : hasTargetRepo s = false) :
      PublishPass s outcome .noTargetRepo { phase := some .done, errorLog := log }
  | refused (log : List String) (hneeds : needsHumanApproval s = true)
      (hstatus : routeAfterApproval s = false) :
      PublishPass s outcome .refused { phase := some .failed, errorLog := log }
  | failed (draft : PRDraft) (log : List String) (hdraft : s.prDraft = some draft)
      (hrepo : hasTargetRepo s = true)
      (hcleared : needsHumanApproval s = true → routeAfterApproval s = true) :
      PublishPass s outcome (.called (publishCall s draft))
        { phase := some .failed, errorLog := log }
  | published (draft : PRDraft) (result : PublishedPR) (hdraft : s.prDraft = some draft)
      (hrepo : hasTargetRepo s = true)
      (hcleared : needsHumanApproval s = true → routeAfterApproval s = true) :
      PublishPass s outcome (.called (publishCall s draft))
        { phase := some .done, prUrl := some result.url, prBranchName := some result.branchName }

theorem prPublishNode_pass (s : GraphState) (outcome : Except String PublishedPR) :
    ∃ branch u, (prPublishNode s outcome).record = .prPublish branch ∧
      (prPublishNode s outcome).update = .ok u ∧ PublishPass s outcome branch u := by
  unfold prPublishNode
  split
  · next hdraft => exact ⟨_, _, rfl, rfl, .noDraft hdraft⟩
  · next draft hdraft =>
    split
    · next hrepo => exact ⟨_, _, rfl, rfl, .noTargetRepo _ (by simpa using hrepo)⟩
    · next hrepo =>
      have hrepo' : hasTargetRepo s = true := by simpa using hrepo
      split
      · next happroval =>
        have hboth : needsHumanApproval s = true ∧ routeAfterApproval s = false := by
          simpa using happroval
        exact ⟨_, _, rfl, rfl, .refused _ hboth.1 hboth.2⟩
      · next happroval =>
        have hcleared : needsHumanApproval s = true → routeAfterApproval s = true := by
          simpa using happroval
        unfold publishApprovedPr
        cases outcome with
        | error exc => exact ⟨_, _, rfl, rfl, .failed draft _ hdraft hrepo' hcleared⟩
        | ok result => exact ⟨_, _, rfl, rfl, .published draft result hdraft hrepo' hcleared⟩

end StackMigrate
