import StackMigrate.Graph.Traces

/-!
# What a node leaves on record when it raises

The inversion of a superstep forgets how far a node came before it raised. Here the step is
read back from its event: the record is the one of the node, whatever became of its update.
-/

namespace StackMigrate

/-! ### Calls on record -/

def BranchOutcome.isCall : BranchOutcome → Bool
  | skipped => false
  | _ => true

def AnalyzerCall.isCall : AnalyzerCall → Bool
  | notCalled => false
  | _ => true

/-- The step called an editor or the analyzer. -/
def Event.asksModel : Event → Bool
  | wave branches => branches.any fun r => r.outcome.isCall
  | errorAnalysis call => call.isCall
  | _ => false

def Event.runsSuite : Event → Bool
  | sandboxTest (.ran _ _) => true
  | _ => false

/-! ### Records -/

theorem Snapshot.trace_advance (c : Snapshot) (i : Input) (r : NodeResult Event)
    (edge : GraphState → Except PyException Next) :
    (c.advance i r edge).trace = r.record :: c.trace := by
  rcases Snapshot.advance_cases (c := c) (i := i) r edge with ⟨_, -, h⟩ | ⟨_, _, -, -, h⟩ <;>
    rw [h] <;> rfl

section Steps

variable [UnicodeData] {c c' : Snapshot} {i : Input}

/-- Every superstep leaves one event. -/
theorem trace_of_superstep (h : Superstep c i c') : ∃ e, c'.trace = e :: c.trace := by
  cases h <;> exact ⟨_, rfl⟩

theorem step_comprehension (hnext : c.next = .node .comprehension) (h : step c i = some c') :
    ∃ answer, i = .comprehension answer ∧
      c' = c.advance i (comprehensionNode c.state answer)
        fun s => .ok (routeAfterComprehension s) := by
  unfold step at h
  split at h <;> simp_all

theorem step_sandboxTest (hnext : c.next = .node .sandboxTest) (h : step c i = some c') :
    ∃ answer, i = .sandboxTest answer ∧
      c' = c.advance i (sandboxTestNode c.state answer) fun s =>
        .ok (.node (if routeAfterSandbox s then .aggregate else .errorAnalysis)) := by
  unfold step at h
  split at h <;> simp_all

theorem step_errorAnalysis (hnext : c.next = .node .errorAnalysis) (h : step c i = some c') :
    ∃ answer gate, i = .errorAnalysis answer gate ∧
      c' = c.advance i (errorAnalysisNode c.state answer) (dispatch .finished gate) := by
  unfold step at h
  split at h <;> simp_all

end Steps

end StackMigrate
