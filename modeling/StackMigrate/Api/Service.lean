import StackMigrate.Api.Locks
import StackMigrate.Api.Requests

/-!
# The service

Clients submit, look at and decide on runs; workers take the submitted jobs and drive the
graph; the event loop of the API drives it on behind a decision. All of them meet in the
checkpoints. Every job is delivered once.
-/

namespace StackMigrate

/-- Where the job of a run stands. -/
inductive JobStage
  | queued
  /-- A worker drives the graph. -/
  | running
  /-- The worker is about to enter the gate, where the graph is interrupted. -/
  | atGate
  /-- The worker has returned, or died. -/
  | ended
  deriving DecidableEq, Repr

structure Job where
  payload : Payload
  stage : JobStage := .queued

structure Service where
  server : Server
  /-- The calls of `approve` and `reject` so far. -/
  calls : List DecideCall
  /-- The jobs, by the ids of their runs. -/
  jobs : String → Option Job

namespace Service

/-- Nothing has been submitted. -/
def empty : Service where
  server := .idle (fun _ => none) fun _ => false
  calls := []
  jobs _ := none

@[simps]
def setJob (s : Service) (runId : String) (job : Job) : Service :=
  { s with jobs := Function.update s.jobs runId (some job) }

@[simps]
def setServer (s : Service) (server : Server) : Service := { s with server := server }

@[simps]
def addCall (s : Service) (call : DecideCall) : Service := { s with calls := s.calls ++ [call] }

end Service

/-- What can happen next. -/
inductive Happening
  /-- `POST /migrations`; `hex` are the twelve digits of a new `uuid4`. -/
  | submit (xApiKey : Option String) (hex : String) (body : Payload)
  /-- `GET /migrations/{run_id}`. -/
  | status (xApiKey : Option String) (runId : String)
  /-- `POST /migrations/{run_id}/approve`, or `/reject`. -/
  | decide (xApiKey : Option String) (call : DecideCall)
  /-- The event loop of the API continues a decision. -/
  | turn (k : ℕ) (turn : Turn)
  /-- A worker has prepared the repositories and invokes the graph. -/
  | begin (runId : String) (validation : Validation) (localCheckoutPath : String)
      (targetWorkspacePath : String) (now : ℚ)
  /-- A worker runs one superstep. -/
  | work (runId : String) (i : Input)
  /-- The worker of a run returns, fails or dies. -/
  | leave (runId : String)

/-- The key a request comes with; the rest of what happens is no request. -/
def Happening.xApiKey? : Happening → Option (Option String)
  | submit xApiKey _ _ | status xApiKey _ | decide xApiKey _ => some xApiKey
  | turn .. | begin .. | work .. | leave _ => none

/-- The run that a worker works on. -/
def Happening.workedOn? : Happening → Option String
  | begin runId _ _ _ _ | work runId _ | leave runId => some runId
  | submit .. | status .. | decide .. | turn .. => none

/-- A request that `require_api_key` turns away. -/
def Happening.isTurnedAway (apiKey : Option String) (h : Happening) : Bool :=
  h.xApiKey?.any fun xApiKey => !admits apiKey xApiKey

/-- `_run_migration_async` up to the call of `ainvoke`. -/
def beginJob (s : Service) (runId : String) (job : Job) (validation : Validation)
    (localCheckoutPath targetWorkspacePath : String) (now : ℚ) : Service :=
  match MigrationRequest.validate validation job.payload with
  | none => s.setJob runId { job with stage := .ended }
  | some request =>
    (s.setServer (s.server.commit runId
      (initial (request.runConfig runId localCheckoutPath targetWorkspacePath) request.limits
        request.maxRetryRounds now))).setJob runId { job with stage := .running }

/-- One superstep of a worker. In front of the gate the run may be decided on before the worker
gets there: its interrupt then belongs to a checkpoint that is no longer the latest. -/
def workJob [UnicodeData] (s : Service) (runId : String) (job : Job) (c : Snapshot) (i : Input) :
    Option Service :=
  match job.stage with
  | .running =>
    if c.next.isAtRest then none
    else
      (graph.step c i).map fun c' =>
        (s.setServer (s.server.commit runId c')).setJob runId
          { job with stage := if c'.next = .node .approvalGate then .atGate else .running }
  | .atGate =>
    if c.next = .node .approvalGate then
      (graph.step c i).map fun c' =>
        (s.setServer (s.server.commit runId c')).setJob runId { job with stage := .ended }
    else some (s.setJob runId { job with stage := .ended })
  | .queued | .ended => none

/-- The service that asks for `apiKey`. -/
def serviceStep [UnicodeData] (apiKey : Option String) (validation : Validation) (s : Service)
    (happening : Happening) : Option Service :=
  if happening.isTurnedAway apiKey then some s
  else
    match happening with
    | .submit _ hex body =>
      match MigrationRequest.validate validation body with
      | none => some s
      | some request =>
        -- a `uuid4` is not given twice
        if (s.jobs ("run-" ++ hex)).isSome then none
        else some (s.setJob ("run-" ++ hex) { payload := request.modelDump })
    | .status _ _ => some s
    | .decide _ call => some (s.addCall call)
    | .turn k turn => (serverStep s.calls s.server (k, turn)).map s.setServer
    | .begin runId validation localCheckoutPath targetWorkspacePath now => do
      let job ← s.jobs runId
      if job.stage = .queued then
        return beginJob s runId job validation localCheckoutPath targetWorkspacePath now
      else none
    | .work runId i => do
      let job ← s.jobs runId
      let c ← s.server.checkpoints runId
      workJob s runId job c i
    | .leave runId => do
      let job ← s.jobs runId
      return s.setJob runId { job with stage := .ended }

def service [UnicodeData] (apiKey : Option String) (validation : Validation) :
    DrivenSystem Service Happening where
  step := serviceStep apiKey validation

/-! ### Inversion -/

section Inversion

variable [UnicodeData] {apiKey : Option String} {validation : Validation} {s s' : Service}
  {h : Happening}

/-- What a step can come to. -/
inductive Happened (apiKey : Option String) (validation : Validation) (s : Service) :
    Happening → Service → Prop
  /-- Nothing changes: the request is turned away, malformed or only reads. -/
  | nothing {any} (hrequest : any.xApiKey?.isSome = true) : Happened apiKey validation s any s
  | submitted {xApiKey hex body} (request : MigrationRequest)
      (hkey : admits apiKey xApiKey = true)
      (hrequest : MigrationRequest.validate validation body = some request)
      (hnew : s.jobs ("run-" ++ hex) = none) :
      Happened apiKey validation s (.submit xApiKey hex body)
        (s.setJob ("run-" ++ hex) { payload := request.modelDump })
  | called {xApiKey call} (hkey : admits apiKey xApiKey = true) :
      Happened apiKey validation s (.decide xApiKey call) (s.addCall call)
  | turned {k turn server call} (hk : s.calls[k]? = some call)
      (hturn : TurnTaken s.server k call turn server) :
      Happened apiKey validation s (.turn k turn) (s.setServer server)
  /-- The worker is not heard of again. -/
  | left {any runId job} (hany : any.workedOn? = some runId) (hjob : s.jobs runId = some job) :
      Happened apiKey validation s any (s.setJob runId { job with stage := .ended })
  | begun {runId workerValidation localCheckoutPath targetWorkspacePath now job}
      (request : MigrationRequest) (hjob : s.jobs runId = some job) (hstage : job.stage = .queued)
      (hrequest : MigrationRequest.validate workerValidation job.payload = some request) :
      Happened apiKey validation s
        (.begin runId workerValidation localCheckoutPath targetWorkspacePath now)
        ((s.setServer (s.server.commit runId
          (initial (request.runConfig runId localCheckoutPath targetWorkspacePath) request.limits
            request.maxRetryRounds now))).setJob runId { job with stage := .running })
  | worked {runId i job c c'} (hjob : s.jobs runId = some job) (hstage : job.stage = .running)
      (hc : s.server.checkpoints runId = some c) (hstep : graph.step c i = some c') :
      Happened apiKey validation s (.work runId i)
        ((s.setServer (s.server.commit runId c')).setJob runId
          { job with stage := if c'.next = .node .approvalGate then .atGate else .running })
  | interrupted {runId i job c c'} (hjob : s.jobs runId = some job) (hstage : job.stage = .atGate)
      (hc : s.server.checkpoints runId = some c) (hgate : c.next = .node .approvalGate)
      (hstep : graph.step c i = some c') :
      Happened apiKey validation s (.work runId i)
        ((s.setServer (s.server.commit runId c')).setJob runId { job with stage := .ended })

theorem happened_of_step (hstep : (service apiKey validation).step s h = some s') :
    Happened apiKey validation s h s' := by
  simp only [service, serviceStep] at hstep
  split at hstep
  · next haway =>
    cases hstep
    refine .nothing ?_
    cases hkey : h.xApiKey? with
    | none => simp [Happening.isTurnedAway, hkey] at haway
    | some => rfl
  next hkey =>
  cases h with
  | submit xApiKey hex body =>
    cases hrequest : MigrationRequest.validate validation body with
    | none =>
      simp only [hrequest, Option.some.injEq] at hstep
      subst hstep
      exact .nothing rfl
    | some request =>
      simp only [hrequest] at hstep
      split_ifs at hstep with hnew
      cases hstep
      refine .submitted request ?_ hrequest (by simpa using hnew)
      simpa [Happening.isTurnedAway, Happening.xApiKey?] using hkey
  | status =>
    cases hstep
    exact .nothing rfl
  | decide =>
    cases hstep
    exact .called (by simpa [Happening.isTurnedAway, Happening.xApiKey?] using hkey)
  | turn k turn =>
    obtain ⟨server, hserver, rfl⟩ := Option.map_eq_some_iff.mp hstep
    obtain ⟨call, hk, hturn⟩ := turnTaken_of_step hserver
    exact .turned hk hturn
  | begin runId workerValidation localCheckoutPath targetWorkspacePath now =>
    simp only [Option.bind_eq_bind, Option.bind_eq_some_iff] at hstep
    obtain ⟨job, hjob, hstep⟩ := hstep
    split_ifs at hstep with hstage
    simp only [beginJob, Option.pure_def, Option.some.injEq] at hstep
    cases hrequest : MigrationRequest.validate workerValidation job.payload with
    | none =>
      rw [hrequest] at hstep
      subst hstep
      exact .left rfl hjob
    | some request =>
      rw [hrequest] at hstep
      subst hstep
      exact .begun request hjob hstage hrequest
  | work runId i =>
    simp only [Option.bind_eq_bind, Option.bind_eq_some_iff] at hstep
    obtain ⟨job, hjob, c, hc, hstep⟩ := hstep
    unfold workJob at hstep
    split at hstep
    · next hstage =>
      split_ifs at hstep
      obtain ⟨c', hc', rfl⟩ := Option.map_eq_some_iff.mp hstep
      exact .worked hjob hstage hc hc'
    · next hstage =>
      split_ifs at hstep with hgate
      · obtain ⟨c', hc', rfl⟩ := Option.map_eq_some_iff.mp hstep
        exact .interrupted hjob hstage hc hgate hc'
      · cases hstep
        exact .left rfl hjob
    · cases hstep
    · cases hstep
  | leave runId =>
    simp only [Option.bind_eq_bind, Option.bind_eq_some_iff, Option.pure_def,
      Option.some.injEq] at hstep
    obtain ⟨job, hjob, rfl⟩ := hstep
    exact .left rfl hjob

theorem turned_of_step {k : ℕ} {turn : Turn}
    (hstep : (service apiKey validation).step s (.turn k turn) = some s') :
    ∃ call server, s.calls[k]? = some call ∧ TurnTaken s.server k call turn server ∧
      s' = s.setServer server := by
  obtain ⟨server, hserver, rfl⟩ := Option.map_eq_some_iff.mp hstep
  obtain ⟨call, hk, hturn⟩ := turnTaken_of_step hserver
  exact ⟨call, server, hk, hturn, rfl⟩

theorem step_of_turned {k : ℕ} {turn : Turn} {call : DecideCall}
    {server : Server} (hk : s.calls[k]? = some call)
    (hturn : TurnTaken s.server k call turn server) :
    (service apiKey validation).step s (.turn k turn) = some (s.setServer server) := by
  have hserver : serverStep s.calls s.server (k, turn) = some server := step_of_turnTaken hk hturn
  simp [service, serviceStep, Happening.isTurnedAway, Happening.xApiKey?, hserver]

end Inversion

end StackMigrate
