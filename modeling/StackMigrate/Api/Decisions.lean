import StackMigrate.Graph.Build
import Mathlib.Logic.Function.Basic
import Mathlib.Tactic.Simps.Basic

/-!
# The endpoints that decide

`approve` and `reject` both call `_decide`. The calls of one API process are coroutines of
one event loop: each of them runs undisturbed up to its next `await`, and the loop picks
whom to continue. They share the table of locks, one for each run, and the checkpointer.
-/

namespace StackMigrate

/-- The string behind a phase. -/
def MigrationPhase.value : MigrationPhase → String
  | comprehension => "comprehension"
  | synthesisPlanning => "synthesis_planning"
  | editing => "editing"
  | testing => "testing"
  | errorAnalysis => "error_analysis"
  | aggregating => "aggregating"
  | awaitingApproval => "awaiting_approval"
  | prGeneration => "pr_generation"
  | done => "done"
  | rejected => "rejected"
  | failed => "failed"
  | abortedBudget => "aborted_budget"
  | needsHuman => "needs_human"

/-- The arguments of one call of `_decide`. -/
structure DecideCall where
  runId : String
  approved : Bool
  feedback : Option String := none
  deriving DecidableEq, Repr

/-- The resume value. -/
def DecideCall.decision (call : DecideCall) : Json :=
  .obj [("approved", .bool call.approved), ("feedback", call.feedback.elim .null .str)]

/-- `_is_awaiting_approval`: the next node of the checkpoint is the gate, interrupted or not. -/
def isAwaitingApproval (c : Snapshot) : Bool :=
  match c.next with
  | .paused | .node .approvalGate => true
  | _ => false

/-! ### Answers -/

inductive Response
  | approveResponse (runId phase : String) (prUrl : Option String)
  | httpException (statusCode : ℕ) (detail : String)
  deriving DecidableEq, Repr

def Response.statusCode : Response → ℕ
  | approveResponse _ _ _ => 200
  | httpException statusCode _ => statusCode

def notFound (runId : String) : Response :=
  .httpException 404 ("No migration run found with id '" ++ runId ++ "'")

def notAwaiting (runId : String) (c : Snapshot) : Response :=
  .httpException 409 ("Run '" ++ runId ++ "' is not awaiting approval (current phase: " ++
    (c.state.phase.elim "None" fun phase => reprStr phase.value) ++ ").")

/-- What `_decide` makes of the values that `ainvoke` returns. An exception of the graph comes
out as an internal error, and so does a response without a phase. -/
def decided (runId : String) (c : Snapshot) : Response :=
  match c.next, c.state.phase with
  | .raised _, _ | _, none => .httpException 500 "Internal Server Error"
  | _, some phase => .approveResponse runId phase.value c.state.prUrl

/-! ### Coroutines -/

/-- A lock object: from an earlier call for the run, or made by the call with that number. -/
inductive RunLock
  | earlier (runId : String)
  | made (k : ℕ)
  deriving DecidableEq, Repr

/-- Where a coroutine stands inside `async with lock`. -/
inductive Place
  /-- Before the snapshot is read again. -/
  | reading
  /-- Before the graph is resumed. -/
  | resuming
  /-- While the graph runs. -/
  | running
  /-- On the way out of the block. -/
  | leaving (response : Response)
  deriving DecidableEq, Repr

inductive Coroutine
  | started
  | waiting (lock : RunLock)
  | inside (lock : RunLock) (place : Place)
  | answered (response : Response)
  deriving DecidableEq, Repr

/-- What the coroutines share, and where each of them stands. -/
structure Server where
  checkpoints : String → Option Snapshot
  runLocks : String → Option RunLock
  locked : RunLock → Bool
  coroutines : ℕ → Coroutine

namespace Server

/-- No call is under way. The runs with an earlier call have a lock already. -/
def idle (checkpoints : String → Option Snapshot) (knownRuns : String → Bool) : Server where
  checkpoints := checkpoints
  runLocks runId := if knownRuns runId then some (.earlier runId) else none
  locked _ := false
  coroutines _ := .started

@[simps]
def setCoroutine (s : Server) (k : ℕ) (coroutine : Coroutine) : Server :=
  { s with coroutines := Function.update s.coroutines k coroutine }

@[simps]
def setLock (s : Server) (runId : String) (lock : RunLock) : Server :=
  { s with runLocks := Function.update s.runLocks runId (some lock) }

@[simps]
def setLocked (s : Server) (lock : RunLock) (locked : Bool) : Server :=
  { s with locked := Function.update s.locked lock locked }

@[simps]
def commit (s : Server) (runId : String) (c : Snapshot) : Server :=
  { s with checkpoints := Function.update s.checkpoints runId (some c) }

end Server

/-- What one coroutine does until it gives control back. -/
inductive Turn
  /-- `run_locks.setdefault(run_id, asyncio.Lock())`. -/
  | setdefault
  | acquire
  /-- `aget_state`, and the checks on what it returns. -/
  | reread
  /-- The superstep that resumes at the gate. -/
  | resume
  /-- Any later superstep, with the answers of its environment. -/
  | drive (i : Input)
  /-- `ainvoke` returns. -/
  | finish
  | release

/-- `ainvoke` returns where the graph has nothing left to execute. -/
def Next.isAtRest : Next → Bool
  | paused | finished | raised _ => true
  | _ => false

/-- What becomes of a call that has read the checkpoint inside the lock. -/
def checked (runId : String) : Option Snapshot → Place
  | none => .leaving (notFound runId)
  | some c => if isAwaitingApproval c then .resuming else .leaving (notAwaiting runId c)

/-- A resume runs the gate from its first line on, with the resume value. -/
def resumed [UnicodeData] (c : Snapshot) (decision : Json) : Option Snapshot :=
  graph.step { c with next := .paused } (.resume decision)

/-- One turn of the coroutine with number `k`; a turn that is not its next one is refused. -/
def serverStep [UnicodeData] (calls : List DecideCall) (s : Server) :
    ℕ × Turn → Option Server
  | (k, turn) => do
    let call ← calls[k]?
    match s.coroutines k, turn with
    | .started, .setdefault =>
      let lock := (s.runLocks call.runId).getD (.made k)
      return (s.setLock call.runId lock).setCoroutine k (.waiting lock)
    | .waiting lock, .acquire =>
      if s.locked lock then none
      else return (s.setLocked lock true).setCoroutine k (.inside lock .reading)
    | .inside lock .reading, .reread =>
      return s.setCoroutine k
        (.inside lock (checked call.runId (s.checkpoints call.runId)))
    | .inside lock .resuming, .resume =>
      let c ← s.checkpoints call.runId
      let c' ← resumed c call.decision
      return (s.commit call.runId c').setCoroutine k (.inside lock .running)
    | .inside _ .running, .drive i =>
      let c ← s.checkpoints call.runId
      if c.next.isAtRest then none
      else
        let c' ← graph.step c i
        return s.commit call.runId c'
    | .inside lock .running, .finish =>
      let c ← s.checkpoints call.runId
      if c.next.isAtRest then
        return s.setCoroutine k (.inside lock (.leaving (decided call.runId c)))
      else none
    | .inside lock (.leaving response), .release =>
      return (s.setLocked lock false).setCoroutine k (.answered response)
    | _, _ => none

/-- The API process, for the calls it is given. -/
def server [UnicodeData] (calls : List DecideCall) : DrivenSystem Server (ℕ × Turn) where
  step := serverStep calls

/-! ### Inversion -/

section Inversion

variable [UnicodeData] {calls : List DecideCall} {s s' : Server}

/-- The ways a coroutine goes on. -/
inductive TurnTaken (s : Server) (k : ℕ) (call : DecideCall) : Turn → Server → Prop
  | setdefault (lock : RunLock) (hat : s.coroutines k = .started)
      (hlock : lock = (s.runLocks call.runId).getD (.made k)) :
      TurnTaken s k call .setdefault
        ((s.setLock call.runId lock).setCoroutine k (.waiting lock))
  | acquire (lock : RunLock) (hat : s.coroutines k = .waiting lock)
      (hfree : s.locked lock = false) :
      TurnTaken s k call .acquire ((s.setLocked lock true).setCoroutine k (.inside lock .reading))
  | reread (lock : RunLock) (hat : s.coroutines k = .inside lock .reading) :
      TurnTaken s k call .reread
        (s.setCoroutine k (.inside lock (checked call.runId (s.checkpoints call.runId))))
  | resume (lock : RunLock) (c c' : Snapshot) (hat : s.coroutines k = .inside lock .resuming)
      (hc : s.checkpoints call.runId = some c) (hstep : resumed c call.decision = some c') :
      TurnTaken s k call .resume
        ((s.commit call.runId c').setCoroutine k (.inside lock .running))
  | drive (lock : RunLock) (i : Input) (c c' : Snapshot)
      (hat : s.coroutines k = .inside lock .running) (hc : s.checkpoints call.runId = some c)
      (hgoing : c.next.isAtRest = false) (hstep : graph.step c i = some c') :
      TurnTaken s k call (.drive i) (s.commit call.runId c')
  | finish (lock : RunLock) (c : Snapshot) (hat : s.coroutines k = .inside lock .running)
      (hc : s.checkpoints call.runId = some c) (hrest : c.next.isAtRest = true) :
      TurnTaken s k call .finish
        (s.setCoroutine k (.inside lock (.leaving (decided call.runId c))))
  | release (lock : RunLock) (response : Response)
      (hat : s.coroutines k = .inside lock (.leaving response)) :
      TurnTaken s k call .release ((s.setLocked lock false).setCoroutine k (.answered response))

theorem turnTaken_of_step {k : ℕ} {turn : Turn} (h : (server calls).step s (k, turn) = some s') :
    ∃ call, calls[k]? = some call ∧ TurnTaken s k call turn s' := by
  simp only [server, serverStep, Option.bind_eq_bind, Option.bind_eq_some_iff] at h
  obtain ⟨call, hcall, h⟩ := h
  refine ⟨call, hcall, ?_⟩
  split at h
  · next hat =>
    cases h
    exact .setdefault _ hat rfl
  · next lock hat =>
    split at h
    · cases h
    · next hfree =>
      cases h
      exact .acquire lock hat (by simpa using hfree)
  · next lock hat =>
    cases h
    exact .reread lock hat
  · next lock hat =>
    simp only [Option.bind_eq_some_iff, Option.pure_def, Option.some.injEq] at h
    obtain ⟨c, hc, c', hstep, rfl⟩ := h
    exact .resume lock c c' hat hc hstep
  · next lock i hat =>
    simp only [Option.bind_eq_some_iff] at h
    obtain ⟨c, hc, h⟩ := h
    split at h
    · cases h
    · next hgoing =>
      simp only [Option.bind_eq_some_iff, Option.pure_def, Option.some.injEq] at h
      obtain ⟨c', hstep, rfl⟩ := h
      exact .drive lock i c c' hat hc (by simpa using hgoing) hstep
  · next lock hat =>
    simp only [Option.bind_eq_some_iff] at h
    obtain ⟨c, hc, h⟩ := h
    split at h
    · next hrest =>
      cases h
      exact .finish lock c hat hc hrest
    · cases h
  · next lock response hat =>
    cases h
    exact .release lock response hat
  · cases h

theorem step_of_turnTaken {k : ℕ} {turn : Turn} {call : DecideCall} (hcall : calls[k]? = some call)
    (h : TurnTaken s k call turn s') : (server calls).step s (k, turn) = some s' := by
  cases h with
  | setdefault lock hat hlock =>
    subst hlock
    simp [server, serverStep, hcall, hat]
  | acquire _ hat hfree => simp [server, serverStep, hcall, hat, hfree]
  | reread _ hat => simp [server, serverStep, hcall, hat]
  | resume _ _ _ hat hc hstep => simp [server, serverStep, hcall, hat, hc, hstep]
  | drive _ _ _ _ hat hc hgoing hstep => simp [server, serverStep, hcall, hat, hc, hgoing, hstep]
  | finish _ _ hat hc hrest => simp [server, serverStep, hcall, hat, hc, hrest]
  | release _ _ hat => simp [server, serverStep, hcall, hat]

namespace TurnTaken

variable {k : ℕ} {call : DecideCall} {turn : Turn}

/-- A turn moves its own coroutine and no other. -/
theorem coroutines_of_ne (h : TurnTaken s k call turn s') {j : ℕ} (hne : j ≠ k) :
    s'.coroutines j = s.coroutines j := by
  cases h <;> simp [hne]

/-- A turn commits to its own run and to no other. -/
theorem checkpoints_of_ne (h : TurnTaken s k call turn s') {runId : String}
    (hne : runId ≠ call.runId) : s'.checkpoints runId = s.checkpoints runId := by
  cases h <;> simp [hne]

theorem runLocks_of_ne (h : TurnTaken s k call turn s') {runId : String}
    (hne : runId ≠ call.runId) : s'.runLocks runId = s.runLocks runId := by
  cases h <;> simp [hne]

end TurnTaken

end Inversion

end StackMigrate
