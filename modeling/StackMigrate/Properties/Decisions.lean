import StackMigrate.Api.Turns
import StackMigrate.Graph.Replay
import StackMigrate.Properties.Publication

/-!
# Decisions that cross

Any number of calls may approve or reject a run that waits at the gate, and their coroutines
may take turns in any order. One decision is applied, once.
-/

namespace StackMigrate

def Turn.isResume : Turn → Bool
  | resume => true
  | _ => false

@[simp] theorem Turn.isResume_iff {turn : Turn} : turn.isResume = true ↔ turn = .resume := by
  cases turn <;> simp [isResume]

/-- The calls that have resumed the graph of the run, in their order. -/
def resumers (calls : List DecideCall) (runId : String) (turns : List (ℕ × Turn)) : List ℕ :=
  ((turnsFor calls runId turns).filter fun t => t.2.isResume).map Prod.fst

/-- One decision on the run was applied, once. -/
structure DecidedOnce (calls : List DecideCall) (runId : String) (c₀ : Snapshot)
    (turns : List (ℕ × Turn)) (s : Server) : Prop where
  once : (resumers calls runId turns).length ≤ 1
  /-- Who is answered has resumed the graph, or is told that somebody else has. -/
  answers : ∀ k call response, calls[k]? = some call → call.runId = runId →
    s.coroutines k = .answered response →
      (response.statusCode = 200 ∧ resumers calls runId turns = [k]) ∨
        (response.statusCode = 409 ∧ ∃ j, j ≠ k ∧ resumers calls runId turns = [j])
  /-- Somebody has, once all are answered. -/
  winner : (∃ (k : ℕ) (call : DecideCall), calls[k]? = some call ∧ call.runId = runId) →
    (∀ k call, calls[k]? = some call → call.runId = runId →
      ∃ response, s.coroutines k = .answered response) →
    ∃ j call response, calls[j]? = some call ∧ call.runId = runId ∧
      resumers calls runId turns = [j] ∧ s.coroutines j = .answered response ∧
      response.statusCode = 200
  untouched : resumers calls runId turns = [] →
    s.checkpoints runId = some c₀ ∧ publishCalls c₀.trace = []
  applied : ∀ j, resumers calls runId turns = [j] → ∃ call c, calls[j]? = some call ∧
    call.runId = runId ∧ s.checkpoints runId = some c ∧
    c.state.approvalStatus = some (if call.approved then "approved" else "rejected") ∧
    c.state.humanFeedback = some (call.feedback.elim .null .str) ∧
    (publishCalls c.trace).length ≤ 1 ∧ (publishCalls c.trace ≠ [] → call.approved = true) ∧
    ∀ response, s.coroutines j = .answered response → c.next = .finished

section Runs

variable [UnicodeData] {calls : List DecideCall} {runId : String} {c c₀ : Snapshot} {s s' : Server}
  {turns : List (ℕ × Turn)} {checkpoints : String → Option Snapshot} {knownRuns : String → Bool}

/-- Before and behind the decision. -/
def Verdict (calls : List DecideCall) (runId : String) (c₀ : Snapshot) (resumers : List ℕ)
    (s : Server) : Prop :=
  (resumers = [] ∧ Undecided calls runId c₀ s) ∨
    ∃ j call c, resumers = [j] ∧ DecidedBy calls runId j call c s

omit [UnicodeData] in
theorem resumers_append (calls : List DecideCall) (runId : String) (turns : List (ℕ × Turn))
    {k : ℕ} {call : DecideCall} (hk : calls[k]? = some call) (turn : Turn) :
    resumers calls runId (turns ++ [(k, turn)]) = resumers calls runId turns ++
      if call.runId = runId ∧ turn.isResume = true then [k] else [] := by
  by_cases hrun : call.runId = runId
  · cases hresume : turn.isResume <;> simp [resumers, turnsFor, runOf, hk, hrun, hresume]
  · simp [resumers, turnsFor, runOf, hk, hrun]

theorem verdict_of_run (hc : checkpoints runId = some c₀)
    (hpaused : isAwaitingApproval c₀ = true) (hquiet : publishCalls c₀.trace = [])
    (h : (server calls).Run (.idle checkpoints knownRuns) turns s) :
    Verdict calls runId c₀ (resumers calls runId turns) s := by
  induction h with
  | refl => exact Or.inl ⟨rfl, hc, fun _ _ => .started⟩
  | @snoc turns s t s' hrun hstep _ ih =>
    obtain ⟨k, turn⟩ := t
    obtain ⟨call, hk, hturn⟩ := turnTaken_of_step hstep
    have hlocks := (served_of_run hrun).1
    rw [resumers_append calls runId turns hk]
    by_cases hmine : call.runId = runId
    · rcases ih with ⟨hnone, hundecided⟩ | ⟨j, winner, c, hone, hdecided⟩
      · rcases hundecided.step hlocks hpaused hquiet hk hmine hturn with
          ⟨hother, hundecided'⟩ | ⟨hresume, c, hdecided⟩
        · exact Or.inl ⟨by simp [hnone, hother], hundecided'⟩
        · exact Or.inr ⟨k, call, c, by simp [hnone, hmine, hresume], hdecided⟩
      · obtain ⟨hother, c', hdecided'⟩ := hdecided.step hlocks hk hmine hturn
        exact Or.inr ⟨j, winner, c', by simp [hone, hother], hdecided'⟩
    · rcases ih with ⟨hnone, hundecided⟩ | ⟨j, winner, c, hone, hdecided⟩
      · exact Or.inl ⟨by simp [hnone, hmine], hundecided.frame hk hmine hturn⟩
      · exact Or.inr ⟨j, winner, c, by simp [hone, hmine], hdecided.frame hk hmine hturn⟩

omit [UnicodeData] in
theorem decidedOnce_of_verdict (hquiet : publishCalls c₀.trace = [])
    (h : Verdict calls runId c₀ (resumers calls runId turns) s) :
    DecidedOnce calls runId c₀ turns s := by
  rcases h with ⟨hnone, hundecided⟩ | ⟨j, winner, c, hone, hdecided⟩
  · have hopen : ∀ {k call response}, calls[k]? = some call → call.runId = runId →
        s.coroutines k ≠ .answered response := by
      intro k call response hk hrun hat
      have hbefore := hundecided.before hk hrun
      rw [hat] at hbefore
      cases hbefore
    refine ⟨by simp [hnone], ?_, ?_, fun _ => ⟨hundecided.checkpoint, hquiet⟩, ?_⟩
    · intro k call response hk hrun hat
      exact absurd hat (hopen hk hrun)
    · rintro ⟨k, call, hk, hrun⟩ hall
      obtain ⟨response, hat⟩ := hall k call hk hrun
      exact absurd hat (hopen hk hrun)
    · intro j hone
      rw [hnone] at hone
      cases hone
  · have hanswered : ∀ response, s.coroutines j = .answered response →
        response.statusCode = 200 ∧ c.next = .finished := by
      intro response hat
      have hwinner := hdecided.winner
      rw [hat] at hwinner
      cases hwinner with
      | answered _ hstatus hfinished => exact ⟨hstatus, hfinished⟩
    refine ⟨by simp [hone], ?_, ?_, ?_, ?_⟩
    · intro k call response hk hrun hat
      by_cases hkj : k = j
      · subst hkj
        exact Or.inl ⟨(hanswered response hat).1, hone⟩
      · have hlosing := hdecided.others hkj hk hrun
        rw [hat] at hlosing
        cases hlosing with
        | answered _ hstatus => exact Or.inr ⟨hstatus, j, Ne.symm hkj, hone⟩
    · rintro - hall
      obtain ⟨response, hat⟩ := hall j winner hdecided.request hdecided.run
      exact ⟨j, winner, response, hdecided.request, hdecided.run, hone, hat,
        (hanswered response hat).1⟩
    · intro hnone
      rw [hone] at hnone
      cases hnone
    · intro j' hone'
      rw [hone, List.cons.injEq] at hone'
      obtain ⟨rfl, -⟩ := hone'
      have happlied := hdecided.applied
      exact ⟨winner, c, hdecided.request, hdecided.run, hdecided.checkpoint, happlied.status,
        happlied.feedback, happlied.once, happlied.onlyApproved,
        fun response hat => (hanswered response hat).2⟩

/-- A run that waits at the gate has published nothing. -/
theorem publishCalls_of_paused {config : MigrationRunConfig} {limits : BudgetLimits}
    {maxRetryRounds : ℤ} {startedAt : ℚ} {inputs : List Input}
    (hgraph : graph.Run (initial config limits maxRetryRounds startedAt) inputs c)
    (hpaused : c.next = .paused) : publishCalls c.trace = [] := by
  have hs := stage_of_run hgraph
  rw [hpaused] at hs
  obtain ⟨-, -, payload, earlier, htrace, -, hquiet⟩ := hs
  rw [htrace]
  simpa [publishCalls, Event.publishCall?] using hquiet.publishCalls_eq_nil

/-- However the coroutines of any number of calls take turns, one decision is applied to the
run that waits, once; every call is answered in the end; and what happens to a run and to the
calls for it is the same without the calls for other runs. -/
theorem decisions_apply_once {config : MigrationRunConfig} {limits : BudgetLimits}
    {maxRetryRounds : ℤ} {startedAt : ℚ} {inputs : List Input}
    (hgraph : graph.Run (initial config limits maxRetryRounds startedAt) inputs c₀)
    (hpaused : c₀.next = .paused) (hc : checkpoints runId = some c₀)
    (h : (server calls).Run (.idle checkpoints knownRuns) turns s) :
    DecidedOnce calls runId c₀ turns s ∧
      (∀ k call, calls[k]? = some call → (∀ response, s.coroutines k ≠ .answered response) →
        ∃ t s', (server calls).step s t = some s') ∧
      turns.length ≤ 7 * calls.length ∧
      ∀ anyRun, ∃ s', (server calls).Run (.idle checkpoints knownRuns)
        (turnsFor calls anyRun turns) s' ∧ SameFor calls anyRun s s' := by
  have hquiet := publishCalls_of_paused hgraph hpaused
  have hawaiting : isAwaitingApproval c₀ = true := by rw [isAwaitingApproval, hpaused]
  obtain ⟨hlocks, hserved⟩ := served_of_run h
  refine ⟨decidedOnce_of_verdict hquiet (verdict_of_run hc hawaiting hquiet h), ?_,
    length_turns_le h, fun _ => run_turnsFor (locking_idle _ _ _) h⟩
  intro k call hk hopen
  exact exists_turn hserved hlocks hk hopen

end Runs

section Crossing

attribute [local instance] asciiTables

/-- One service class, migrated, tested and shown to the reviewers. -/
def pausedRun : List Input :=
  planServices [serviceFile "OrderService" []] ++
    [.editors [(0, writesAt 0 "app/services/order_service.py")], .budgetReconcile (gateAt 0),
      suite .passed, .aggregate, .requestApproval, .approvalGate]

def waitsAtGate (c : Snapshot) : Bool :=
  match c.next with
  | .paused => true
  | _ => false

/-- One reviewer approves, another one rejects. -/
def crossingCalls : List DecideCall :=
  [⟨"run-1", true, none⟩, ⟨"run-1", false, some "wait for the other service"⟩]

/-- The approval asks for the lock first, and the rejection gets it first. -/
def crossingTurns : List (ℕ × Turn) :=
  [(0, .setdefault), (1, .setdefault), (1, .acquire), (1, .reread), (1, .resume), (1, .finish),
    (1, .release), (0, .acquire), (0, .reread), (0, .release)]

def onlyRun (c : Snapshot) (runId : String) : Option Snapshot :=
  if runId = "run-1" then some c else none

def crossed (c : Snapshot) : Option Server :=
  (server crossingCalls).exec (fun _ _ _ => True) (.idle (onlyRun c) fun _ => false) crossingTurns

def statusCode? : Coroutine → Option ℕ
  | .answered response => some response.statusCode
  | _ => none

theorem decisions_apply_once_crossing :
    ∃ (c : Snapshot) (s : Server), crossed c = some s ∧
      statusCode? (s.coroutines 0) = some 409 ∧ statusCode? (s.coroutines 1) = some 200 ∧
      DecidedOnce crossingCalls "run-1" c crossingTurns s := by
  have hreplay : (replay (initial demoConfig demoLimits 5 0) pausedRun).any
      (fun c => waitsAtGate c && (crossed c).any fun s =>
        decide (statusCode? (s.coroutines 0) = some 409 ∧
          statusCode? (s.coroutines 1) = some 200)) = true := by decide +kernel
  obtain ⟨c, hgraph, hc⟩ := exists_run_of_replay hreplay
  rw [Bool.and_eq_true] at hc
  have hpaused : c.next = .paused := by
    have hwaits := hc.1
    unfold waitsAtGate at hwaits
    split at hwaits
    · assumption
    · cases hwaits
  cases hs : crossed c with
  | none => simp [hs] at hc
  | some s =>
    have hcodes := hc.2
    rw [hs, Option.any_some, decide_eq_true_eq] at hcodes
    have hcommitted : onlyRun c "run-1" = some c := rfl
    have hone := (decisions_apply_once hgraph hpaused hcommitted (DrivenSystem.exec_runWhere hs)).1
    exact ⟨c, s, hs, hcodes.1, hcodes.2, hone⟩

end Crossing

end StackMigrate
