import StackMigrate.Library.DrivenSystem
import StackMigrate.Nodes.Comprehension
import StackMigrate.Nodes.Migration
import StackMigrate.Nodes.Publication
import StackMigrate.Nodes.Synthesis

/-!
# The compiled graph

A superstep runs one node, or one wave of editor branches, folds the updates into the
state and takes the outgoing edge. The environment supplies everything the node does
not compute: clock readings, answers of the collaborators, the order in which the
branches of a wave are merged, and the reviewer's decision.
-/

namespace StackMigrate

inductive Node
  | comprehension | synthesis | budgetReconcile | sandboxTest | errorAnalysis | aggregate
  | requestApproval | approvalGate | prPublish | budgetAbort
  deriving DecidableEq, Repr

/-- What the graph executes next. -/
inductive Next
  | node (n : Node)
  | editors (sends : List Send)
  /-- Inside `interrupt`, waiting for a resume value. -/
  | paused
  | finished
  /-- A node or a router raised out of the graph. -/
  | raised (exc : PyException)

namespace Next

instance (next : Next) (n : Node) : Decidable (next = .node n) :=
  match next with
  | .node m => decidable_of_iff (m = n) (by simp)
  | .editors _ | .paused | .finished | .raised _ => isFalse (by simp)

def isFinished : Next → Bool
  | finished => true
  | _ => false

theorem isFinished_iff {next : Next} : next.isFinished = true ↔ next = .finished := by
  cases next <;> simp [isFinished]

def isRaised : Next → Bool
  | raised _ => true
  | _ => false

theorem isRaised_iff {next : Next} : next.isRaised = true ↔ ∃ exc, next = .raised exc := by
  cases next <;> simp [isRaised]

end Next

/-- The snapshot between two supersteps. The trace has the latest event first; the
clock is the latest reading any node has made. -/
structure Snapshot where
  state : GraphState
  next : Next
  trace : List Event := []
  clock : ℚ

/-- What the environment supplies for one superstep. The branches of a wave come in the
order of their merge, each with its index in the list of sends. -/
inductive Input
  | comprehension (i : ComprehensionInput)
  | synthesis (gate : GateReadings)
  | editors (arrivals : List (ℕ × BranchInput))
  | budgetReconcile (gate : GateReadings)
  | sandboxTest (i : SandboxInput)
  | errorAnalysis (i : AnalysisInput) (gate : GateReadings)
  | aggregate
  | requestApproval
  | approvalGate
  | resume (decision : Json)
  | prPublish (outcome : Except String PublishedPR)
  | budgetAbort (now later : ℚ)

/-- The clock readings of one superstep, a list for each sequential part of it. -/
def Input.readings : Input → List (List ℚ)
  | comprehension i => [[i.now]]
  | synthesis gate => [[gate.first, gate.second]]
  | editors arrivals => arrivals.map fun a => [a.2.now, a.2.reasonNow, a.2.reasonLater]
  | budgetReconcile gate => [[gate.first, gate.second]]
  | errorAnalysis i gate => [[i.now, gate.first, gate.second]]
  | budgetAbort now later => [[now, later]]
  | sandboxTest _ | aggregate | requestApproval | approvalGate | resume _ | prPublish _ => []

/-- The latest reading, or the clock where that is later. -/
def Input.latest (clock : ℚ) (i : Input) : ℚ := i.readings.flatten.foldl max clock

/-! ### Edges -/

/-- A conditional edge through `route_to_editors`, with the target of `NO_READY_TASKS`. -/
def dispatch (noReadyTasks : Next) (gate : GateReadings) (s : GraphState) :
    Except PyException Next :=
  (routeToEditors s gate).map fun
    | .noReadyTasks => noReadyTasks
    | .budgetExhausted => .node .budgetAbort
    | .sends [] => .finished
    | .sends (send :: rest) => .editors (send :: rest)

def routeAfterComprehension (s : GraphState) : Next :=
  if s.phase = some .abortedBudget then .node .budgetAbort else .node .synthesis

def routeAfterAggregate (s : GraphState) : Next :=
  if s.prDraft.isNone then .finished
  else if needsHumanApproval s then .node .requestApproval
  else .node .prPublish

/-! ### Waves -/

/-- The branches in the order of their merge. -/
def arrivalOrder (sends : List Send) (arrivals : List (ℕ × BranchInput)) :
    List (Send × BranchInput) :=
  arrivals.filterMap fun a => sends[a.1]?.map fun send => (send, a.2)

/-- All branches of one wave. One branch that raises takes the others down with it. -/
def runWave (branches : List (Send × BranchInput)) :
    Except PyException (List Update) × List BranchRecord :=
  let results := branches.map fun b => editorNode b.1 b.2
  (results.mapM NodeResult.update, results.map NodeResult.record)

/-! ### Supersteps -/

namespace Snapshot

/-- The end of a superstep. -/
def moved (c : Snapshot) (i : Input) (event : Event) (s : GraphState) (next : Next) : Snapshot :=
  { state := s, next := next, trace := event :: c.trace, clock := i.latest c.clock }

/-- An exception leaves the state as it was. -/
def move (c : Snapshot) (i : Input) (event : Event) :
    Except PyException (GraphState × Next) → Snapshot
  | .error exc => c.moved i event c.state (.raised exc)
  | .ok (s, next) => c.moved i event s next

/-- Merge the update of a node, then take its outgoing edge on the merged state. -/
def advance (c : Snapshot) (i : Input) (r : NodeResult Event)
    (edge : GraphState → Except PyException Next) : Snapshot :=
  c.move i r.record do
    let update ← r.update
    let next ← edge (c.state.apply update)
    return (c.state.apply update, next)

/-- The superstep of one wave of editors. -/
def advanceWave (c : Snapshot) (i : Input) (branches : List (Send × BranchInput)) : Snapshot :=
  let wave := runWave branches
  c.move i (.wave wave.2) do
    let updates ← wave.1
    return (c.state.applyAll updates, .node .budgetReconcile)

end Snapshot

/-- One superstep of `build_graph`; an input for another node is refused. -/
def step [UnicodeData] (c : Snapshot) (i : Input) : Option Snapshot :=
  match c.next, i with
  | .node .comprehension, .comprehension answer =>
    some (c.advance i (comprehensionNode c.state answer) fun s => .ok (routeAfterComprehension s))
  | .node .synthesis, .synthesis gate =>
    some (c.advance i (synthesisNode c.state) (dispatch (.node .sandboxTest) gate))
  | .editors sends, .editors arrivals =>
    if (arrivals.map Prod.fst).Perm (List.range sends.length) then
      some (c.advanceWave i (arrivalOrder sends arrivals))
    else none
  | .node .budgetReconcile, .budgetReconcile gate =>
    some (c.advance i (budgetReconcileNode c.state) (dispatch (.node .sandboxTest) gate))
  | .node .sandboxTest, .sandboxTest answer =>
    some (c.advance i (sandboxTestNode c.state answer) fun s =>
      .ok (.node (if routeAfterSandbox s then .aggregate else .errorAnalysis)))
  | .node .errorAnalysis, .errorAnalysis answer gate =>
    some (c.advance i (errorAnalysisNode c.state answer) (dispatch .finished gate))
  | .node .aggregate, .aggregate =>
    some (c.advance i (aggregateNode c.state) fun s => .ok (routeAfterAggregate s))
  | .node .requestApproval, .requestApproval =>
    some (c.advance i (requestApprovalNode c.state) fun _ => .ok (.node .approvalGate))
  | .node .approvalGate, .approvalGate =>
    some (c.moved i (.interrupt (interruptPayload c.state)) c.state .paused)
  | .paused, .resume decision =>
    some (c.advance i (approvalGateNode c.state decision) fun s =>
      .ok (if routeAfterApproval s then .node .prPublish else .finished))
  | .node .prPublish, .prPublish outcome =>
    some (c.advance i (prPublishNode c.state outcome) fun _ => .ok .finished)
  | .node .budgetAbort, .budgetAbort now later =>
    some (c.advance i (budgetAbortNode c.state now later) fun _ => .ok .finished)
  | _, _ => none

/-- The compiled graph. -/
def graph [UnicodeData] : DrivenSystem Snapshot Input where
  step := step

/-! ### Where runs start -/

/-- The ceilings of a migration request. -/
structure BudgetLimits where
  maxUsd : ℚ
  maxLlmCalls : ℤ
  maxWallClockSeconds : ℤ

/-- The snapshot in which the worker invokes the graph. -/
def initial (config : MigrationRunConfig) (limits : BudgetLimits) (maxRetryRounds : ℤ)
    (startedAt : ℚ) : Snapshot :=
  { state :=
      { config := config
        budget :=
          { maxUsd := limits.maxUsd
            maxLlmCalls := limits.maxLlmCalls
            maxWallClockSeconds := limits.maxWallClockSeconds
            startedAt := startedAt }
        maxRetryRounds := some maxRetryRounds }
    next := .node .comprehension
    clock := startedAt }

/-- What `synthesis` leaves behind, for an arbitrary plan. -/
def plannedState (config : MigrationRunConfig) (budget : BudgetState) (maxRetryRounds : ℤ)
    (comprehension : ComprehensionResult) (tasks : List MigrationTask) : GraphState :=
  { config := config
    budget := budget
    maxRetryRounds := some maxRetryRounds
    phase := some .editing
    comprehension := some comprehension
    tasks := tasks }

/-- The snapshot behind the edge that leaves `synthesis`. -/
def planned (s : GraphState) (gate : GateReadings) : Snapshot :=
  { state := s
    next := match dispatch (.node .sandboxTest) gate s with
      | .ok next => next
      | .error exc => .raised exc
    clock := max gate.first gate.second }

end StackMigrate
