import StackMigrate.Properties.Decisions
import StackMigrate.Properties.Service

/-!
# Answers to decisions

Calls come at any time, before the run exists, while a worker drives it, at the gate or behind
the decision. Each is answered in a bounded number of turns, and at most one for each run is
told that its decision was applied.
-/

namespace StackMigrate

section Answers

variable [UnicodeData] {apiKey : Option String} {validation : Validation} {s s' : Service}
  {happening : Happening} {happenings : List Happening} {runId : String} {k : ℕ}
  {call : DecideCall} {response : Response}

/-! ### What is answered -/

/-- The answer to a call whose decision was applied. -/
structure Prevailing (s : Service) (k : ℕ) (call : DecideCall) (response : Response) : Prop where
  status : response.statusCode = 200
  applied : ∃ c, s.server.checkpoints call.runId = some c ∧ Applied call c ∧ c.next = .finished
  only : ∀ j call' response', s.calls[j]? = some call' → call'.runId = call.runId →
    s.server.coroutines j = .answered response' → j ≠ k → response'.isRefusal = true

omit [UnicodeData] in
theorem isRefusal_of_isIdle {coroutine : Coroutine} (h : coroutine.isIdle = true)
    (hat : coroutine = .answered response) : response.isRefusal = true := by
  subst hat
  simpa [Coroutine.hasResumed] using Coroutine.not_hasResumed_of_isIdle h

omit [UnicodeData] in
/-- Who is not told that its decision was applied is told that it comes too early or too late. -/
theorem Lifecycle.answer {job? : Option Job} (h : Lifecycle s.calls s.server job? call.runId)
    (hk : s.calls[k]? = some call) (hat : s.server.coroutines k = .answered response) :
    Prevailing s k call response ∨ response.isRefusal = true := by
  cases h with
  | absent _ _ hcalls | driven _ _ _ _ _ _ hcalls =>
    exact Or.inr (isRefusal_of_isIdle (hcalls k (runOf_eq hk)) hat)
  | awaiting _ _ _ _ _ _ hcalls =>
    have hnot := hcalls k (runOf_eq hk)
    rw [hat] at hnot
    exact Or.inr (by simpa [Coroutine.hasResumed] using hnot)
  | decided _ _ _ c hc j winner hj hrun happlied hwinner hcalls =>
    by_cases hkj : k = j
    · subst hkj
      cases hk.symm.trans hj
      rw [hat] at hwinner
      cases hwinner with
      | answered _ hstatus hfinished =>
        refine Or.inl ⟨hstatus, ⟨c, hc, happlied, hfinished⟩, ?_⟩
        intro i call' response' hi hrun' hat' hne
        exact isRefusal_of_isIdle (hcalls i hne (hrun' ▸ runOf_eq hi)) hat'
    · exact Or.inr (isRefusal_of_isIdle (hcalls k hkj (runOf_eq hk)) hat)

/-! ### Progress -/

theorem Sound.served (h : Sound s) : Served s.calls s.server where
  resuming hk hat := by
    obtain ⟨c, hc, -⟩ := (h.lives _).awaiting_of_isResuming (runOf_eq hk) (by rw [hat]; rfl)
    exact ⟨c, hc⟩
  running := by
    intro k call lock hk hat
    have hbusy : (s.server.coroutines k).hasResumed = true := by rw [hat]; rfl
    have hnot : ¬ (s.server.coroutines k).isIdle = true := fun hidle => by
      rw [Coroutine.not_hasResumed_of_isIdle hidle] at hbusy
      cases hbusy
    cases h.lives call.runId with
    | absent _ _ hcalls | driven _ _ _ _ _ _ hcalls => exact absurd (hcalls k (runOf_eq hk)) hnot
    | awaiting _ _ _ _ _ _ hcalls =>
      rw [hcalls k (runOf_eq hk)] at hbusy
      cases hbusy
    | decided _ _ _ c hc j winner hj hrun happlied hwinner hcalls =>
      by_cases hkj : k = j
      · exact ⟨c, hc, happlied.next.imp_right fun h => h.1⟩
      · exact absurd (hcalls k hkj (runOf_eq hk)) hnot

theorem exists_turn_of_open (h : Sound s) (hk : s.calls[k]? = some call)
    (hopen : ∀ response, s.server.coroutines k ≠ .answered response) :
    ∃ j turn s', (service apiKey validation).step s (.turn j turn) = some s' := by
  obtain ⟨⟨j, turn⟩, server, hstep⟩ := exists_turn h.served h.locking hk hopen
  obtain ⟨call', hj, hturn⟩ := turnTaken_of_step hstep
  exact ⟨j, turn, _, step_of_turned hj hturn⟩

/-! ### The number of turns -/

def Happening.isTurn : Happening → Bool
  | turn _ _ => true
  | _ => false

omit [UnicodeData] in
/-- Where a worker goes on, no call has resumed the graph. -/
theorem Lifecycle.not_hasResumed {calls : List DecideCall} {server : Server} {job : Job}
    (h : Lifecycle calls server (some job) runId)
    (hworker : job.stage = .queued ∨ job.stage = .running ∨
      ∃ c, server.checkpoints runId = some c ∧ isAwaitingApproval c = true) :
    ∀ k, runOf calls k = some runId → (server.coroutines k).hasResumed = false := by
  intro k hk
  cases h with
  | absent _ _ hcalls | driven _ _ _ _ _ _ hcalls =>
    exact Coroutine.not_hasResumed_of_isIdle (hcalls k hk)
  | awaiting _ _ _ _ _ _ hcalls => exact hcalls k hk
  | decided _ hjob hstage c hc _ _ _ _ happlied =>
    cases hjob
    rcases hworker with hworker | hworker | ⟨c', hc', hawaiting⟩
    · simp [hworker] at hstage
    · simp [hworker] at hstage
    · cases hc.symm.trans hc'
      rw [happlied.not_awaiting] at hawaiting
      cases hawaiting

omit [UnicodeData] in
/-- A worker commits to no run that a call drives. -/
theorem turnsLeft_commit {c : Snapshot} (h : ∀ k, runOf s.calls k = some runId →
      (s.server.coroutines k).hasResumed = false) :
    (s.server.commit runId c).allTurnsLeft s.calls = s.server.allTurnsLeft s.calls := by
  refine Finset.sum_congr rfl fun k _ => ?_
  unfold Server.turnsLeft
  cases hk : s.calls[k]? with
  | none => rfl
  | some call =>
    simp only [Option.elim_some, Server.commit_coroutines, Server.commit_checkpoints]
    by_cases hrun : call.runId = runId
    · refine turnsLeft_of_not_inside (fun lock hat => ?_) _ _
      have hnot := h k (hrun ▸ runOf_eq hk)
      rw [hat] at hnot
      cases hnot
    · rw [Function.update_of_ne hrun]

theorem allTurnsLeft_addCall (h : Sound s) (call : DecideCall) :
    (s.addCall call).server.allTurnsLeft (s.addCall call).calls =
      s.server.allTurnsLeft s.calls + 7 := by
  unfold Server.allTurnsLeft
  rw [Service.addCall_calls, List.length_append, List.length_singleton, Finset.sum_range_succ]
  congr 1
  · refine Finset.sum_congr rfl fun k hk => ?_
    rw [Finset.mem_range] at hk
    simp [Server.turnsLeft, List.getElem?_append_left hk]
  · simp [Server.turnsLeft, h.started _ le_rfl, Coroutine.turnsLeft]

/-- Nothing but turns uses turns up, and every call has seven. -/
theorem turnsLeft_of_step (h : Sound s)
    (hstep : (service apiKey validation).step s happening = some s') :
    (if happening.isTurn then 1 else 0) + s'.server.allTurnsLeft s'.calls + 7 * s.calls.length ≤
      s.server.allTurnsLeft s.calls + 7 * s'.calls.length := by
  have hcommit : ∀ {r : String} {job : Job}, s.jobs r = some job →
      (job.stage = .queued ∨ job.stage = .running ∨
        ∃ c, s.server.checkpoints r = some c ∧ isAwaitingApproval c = true) →
      ∀ c, (s.server.commit r c).allTurnsLeft s.calls = s.server.allTurnsLeft s.calls := by
    intro r job hjob hworker c
    have hlife := h.lives r
    rw [hjob] at hlife
    exact turnsLeft_commit (hlife.not_hasResumed hworker)
  cases happened_of_step hstep with
  | nothing hrequest => cases happening <;> simp_all [Happening.isTurn, Happening.xApiKey?]
  | submitted => simp [Happening.isTurn]
  | @called _ call =>
    have hadd := allTurnsLeft_addCall h call
    simp only [Service.addCall_server, Service.addCall_calls, List.length_append,
      List.length_singleton, Happening.isTurn] at hadd ⊢
    simp only [Bool.false_eq_true, if_false]
    omega
  | turned hk hturn =>
    have hlt := allTurnsLeft_lt h.served h.locking hk hturn
    simp only [Happening.isTurn, if_true, Service.setServer_server, Service.setServer_calls]
    omega
  | left hany => cases happening <;> simp_all [Happening.isTurn, Happening.workedOn?]
  | begun _ hjob hstage =>
    have hsame := hcommit hjob (Or.inl hstage)
    simp [Happening.isTurn, hsame]
  | worked hjob hstage =>
    have hsame := hcommit hjob (Or.inr (Or.inl hstage))
    simp [Happening.isTurn, hsame]
  | interrupted hjob _ hc hgate =>
    have hsame := hcommit hjob (Or.inr (Or.inr ⟨_, hc, by simp [isAwaitingApproval, hgate]⟩))
    simp [Happening.isTurn, hsame]

theorem turns_le (h : (service apiKey validation).Run .empty happenings s) :
    happenings.countP Happening.isTurn + s.server.allTurnsLeft s.calls ≤ 7 * s.calls.length := by
  induction h with
  | refl => simp [Service.empty, Server.allTurnsLeft]
  | snoc hrun hstep _ ih =>
    have hone := turnsLeft_of_step (sound_of_run hrun) hstep
    rw [List.countP_append, List.countP_singleton]
    omega

/-- However calls and workers meet, no call waits for ever, all of them together take at most seven
turns each, and the answers are 200, 404 and 409. One call of a run at most is answered 200, and its
decision is the one that was applied. -/
theorem calls_are_answered (h : (service apiKey validation).Run .empty happenings s) :
    (∀ k call response, s.calls[k]? = some call → s.server.coroutines k = .answered response →
      Prevailing s k call response ∨ response.statusCode = 404 ∨ response.statusCode = 409) ∧
      (∀ k call, s.calls[k]? = some call →
        (∀ response, s.server.coroutines k ≠ .answered response) →
        ∃ j turn s', (service apiKey validation).step s (.turn j turn) = some s') ∧
      happenings.countP Happening.isTurn ≤ 7 * s.calls.length := by
  have hs := sound_of_run h
  refine ⟨?_, fun k call hk hopen => exists_turn_of_open hs hk hopen,
    le_trans (Nat.le_add_right _ _) (turns_le h)⟩
  intro k call response hk hat
  refine ((hs.lives call.runId).answer hk hat).imp_right fun hrefusal => ?_
  simpa [Response.isRefusal] using hrefusal

end Answers

section Demo

attribute [local instance] asciiTables

theorem calls_are_answered_demo :
    ∃ s : Service, statusCode? (s.server.coroutines 0) = some 200 ∧
      demoHistory.countP Happening.isTurn ≤ 7 * s.calls.length := by
  have hdemo : runDemo.any (fun s => statusCode? (s.server.coroutines 0) = some 200) = true := by
    decide +kernel
  obtain ⟨s, hrun, hstatus⟩ := run_of_runDemo hdemo
  exact ⟨s, of_decide_eq_true hstatus, (calls_are_answered hrun).2.2⟩

end Demo

end StackMigrate
