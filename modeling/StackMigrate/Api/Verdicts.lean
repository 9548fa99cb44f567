import StackMigrate.Api.Locks
import StackMigrate.Graph.Traces

/-!
# The call that decides

Of all calls for a run that waits at the gate, one resumes the graph. From then on the run
stands behind that decision, and every other call finds it there when its turn comes.
-/

namespace StackMigrate

/-! ### The graph behind a decision -/

theorem isApproval_decision (call : DecideCall) : isApproval call.decision = call.approved := by
  cases happroved : call.approved <;>
    simp [isApproval, DecideCall.decision, Json.get?, happroved]

theorem feedbackOf_decision (call : DecideCall) :
    feedbackOf call.decision = call.feedback.elim .null .str := by
  simp [feedbackOf, DecideCall.decision, Json.get?, List.lookup_cons]

/-- The decision of the call was applied to the run, and no other one. -/
structure Applied (call : DecideCall) (c : Snapshot) : Prop where
  status : c.state.approvalStatus = some (if call.approved then "approved" else "rejected")
  feedback : c.state.humanFeedback = some (call.feedback.elim .null .str)
  phase : ∃ phase, c.state.phase = some phase
  once : (publishCalls c.trace).length ≤ 1
  onlyApproved : publishCalls c.trace ≠ [] → call.approved = true
  next : c.next = .finished ∨
    (c.next = .node .prPublish ∧ publishCalls c.trace = [] ∧ call.approved = true)

section Graph

variable [UnicodeData] {call : DecideCall} {c c' : Snapshot} {decision : Json} {i : Input}

theorem superstep_of_resumed (h : resumed c decision = some c') :
    Superstep { c with next := .paused } (.resume decision) c' :=
  superstep_of_step h

theorem next_of_resumed (h : resumed c decision = some c') :
    c'.next = .finished ∨ c'.next = .node .prPublish := by
  cases superstep_of_resumed h with
  | raised hraising => cases hraising
  | resume =>
    rw [Snapshot.moved_next]
    split
    · exact Or.inr rfl
    · exact Or.inl rfl

/-- Behind the gate there is at most the publication. -/
theorem next_of_prPublish (hnext : c.next = .node .prPublish) (h : graph.step c i = some c') :
    c'.next = .finished := by
  cases superstep_of_step h with
  | raised hraising => cases hraising <;> simp_all
  | prPublish => rfl
  | _ => simp_all

theorem exists_resumed (c : Snapshot) (decision : Json) : ∃ c', resumed c decision = some c' :=
  ⟨_, rfl⟩

theorem applied_of_resumed (hquiet : publishCalls c.trace = [])
    (h : resumed c call.decision = some c') : Applied call c' := by
  cases superstep_of_resumed h with
  | raised hraising => cases hraising
  | resume _ hpass =>
    have hcalls : publishCalls (.resume call.decision :: c.trace) = [] := by
      simpa [publishCalls, Event.publishCall?] using hquiet
    cases hpass with
    | approved happroved =>
      rw [isApproval_decision] at happroved
      refine ⟨?_, ?_, ⟨.prGeneration, by simp⟩, ?_, fun _ => happroved, Or.inr ⟨?_, hcalls,
        happroved⟩⟩
      · simp [happroved]
      · simp [feedbackOf_decision]
      · simp [hcalls]
      · simp [routeAfterApproval]
    | rejected log hrejected =>
      rw [isApproval_decision] at hrejected
      refine ⟨?_, ?_, ⟨.rejected, by simp⟩, ?_, fun h => absurd hcalls h, Or.inl ?_⟩
      · simp [hrejected]
      · simp [feedbackOf_decision]
      · simp [hcalls]
      · simp [routeAfterApproval]

theorem Applied.drive (h : Applied call c) (hgoing : c.next.isAtRest = false)
    (hstep : graph.step c i = some c') : Applied call c' := by
  rcases h.next with hnext | ⟨hnext, hquiet, happroved⟩
  · rw [hnext] at hgoing
    cases hgoing
  · cases superstep_of_step hstep with
    | raised hraising => cases hraising <;> simp_all
    | prPublish _ hpass =>
      refine ⟨?_, ?_, ?_, ?_, fun _ => happroved, Or.inl rfl⟩
      · cases hpass <;> simpa using h.status
      · cases hpass <;> simpa using h.feedback
      · cases hpass with
        | noDraft => simpa using h.phase
        | _ => exact ⟨_, rfl⟩
      · have hone : (publishCalls c.trace).length = 0 := by rw [hquiet]; rfl
        simp only [publishCalls, List.length_eq_zero_iff] at hone
        simp only [publishCalls, Snapshot.moved_trace, List.filterMap_cons, hone]
        split <;> simp
    | _ => simp_all

omit [UnicodeData] in
/-- The answer to a call whose decision was applied. -/
theorem Applied.statusCode_decided (h : Applied call c) (runId : String) :
    (decided runId c).statusCode = 200 := by
  obtain ⟨phase, hphase⟩ := h.phase
  rcases h.next with hnext | ⟨hnext, -⟩ <;> simp [decided, hnext, hphase, Response.statusCode]

end Graph

/-! ### The calls before and behind the decision -/

/-- The call has not gone further than the check. -/
inductive Coroutine.Before : Coroutine → Prop
  | started : Before .started
  | waiting (lock : RunLock) : Before (.waiting lock)
  | reading (lock : RunLock) : Before (.inside lock .reading)
  | resuming (lock : RunLock) : Before (.inside lock .resuming)

/-- The call that has resumed the graph. -/
inductive Coroutine.Winning (c : Snapshot) : Coroutine → Prop
  | running (lock : RunLock) : Winning c (.inside lock .running)
  | leaving (lock : RunLock) (response : Response) (hstatus : response.statusCode = 200)
      (hfinished : c.next = .finished) : Winning c (.inside lock (.leaving response))
  | answered (response : Response) (hstatus : response.statusCode = 200)
      (hfinished : c.next = .finished) : Winning c (.answered response)

/-- A call that comes too late. -/
inductive Coroutine.Losing : Coroutine → Prop
  | started : Losing .started
  | waiting (lock : RunLock) : Losing (.waiting lock)
  | reading (lock : RunLock) : Losing (.inside lock .reading)
  | leaving (lock : RunLock) (response : Response) (hstatus : response.statusCode = 409) :
      Losing (.inside lock (.leaving response))
  | answered (response : Response) (hstatus : response.statusCode = 409) :
      Losing (.answered response)

/-- Nobody has decided on the run, which waits as it did. -/
structure Undecided (calls : List DecideCall) (runId : String) (c : Snapshot) (s : Server) :
    Prop where
  checkpoint : s.checkpoints runId = some c
  before : ∀ {k call}, calls[k]? = some call → call.runId = runId → (s.coroutines k).Before

/-- The call with number `j` has decided on the run. -/
structure DecidedBy (calls : List DecideCall) (runId : String) (j : ℕ) (call : DecideCall)
    (c : Snapshot) (s : Server) : Prop where
  request : calls[j]? = some call
  run : call.runId = runId
  checkpoint : s.checkpoints runId = some c
  applied : Applied call c
  winner : (s.coroutines j).Winning c
  others : ∀ {k call'}, k ≠ j → calls[k]? = some call' → call'.runId = runId →
    (s.coroutines k).Losing

section Turns

variable [UnicodeData] {calls : List DecideCall} {runId : String} {c c₀ : Snapshot} {s s' : Server}
  {j k : ℕ} {call call' : DecideCall} {turn : Turn}

/-- The turns for another run change nothing. -/
theorem Undecided.frame (h : Undecided calls runId c s) (hk : calls[k]? = some call)
    (hrun : call.runId ≠ runId) (hturn : TurnTaken s k call turn s') :
    Undecided calls runId c s' := by
  refine ⟨(hturn.checkpoints_of_ne hrun.symm).trans h.checkpoint, ?_⟩
  intro i call' hi hrun'
  have hne : i ≠ k := by
    rintro rfl
    cases hk.symm.trans hi
    exact hrun hrun'
  rw [hturn.coroutines_of_ne hne]
  exact h.before hi hrun'

theorem DecidedBy.frame (h : DecidedBy calls runId j call c s) (hk : calls[k]? = some call')
    (hrun : call'.runId ≠ runId) (hturn : TurnTaken s k call' turn s') :
    DecidedBy calls runId j call c s' := by
  have hne : ∀ {i call}, calls[i]? = some call → call.runId = runId → i ≠ k := by
    rintro i call hi hrun' rfl
    cases hk.symm.trans hi
    exact hrun hrun'
  have hcheckpoint := (hturn.checkpoints_of_ne hrun.symm).trans h.checkpoint
  refine ⟨h.request, h.run, hcheckpoint, h.applied, ?_, ?_⟩
  · rw [hturn.coroutines_of_ne (hne h.request h.run)]
    exact h.winner
  · intro i call' hij hi hrun'
    rw [hturn.coroutines_of_ne (hne hi hrun')]
    exact h.others hij hi hrun'

/-- A call that has not got past the check goes on to resume the graph, and no further. -/
theorem Undecided.step (h : Undecided calls runId c₀ s) (hlocks : Locking calls s)
    (hpaused : isAwaitingApproval c₀ = true) (hquiet : publishCalls c₀.trace = [])
    (hk : calls[k]? = some call) (hrun : call.runId = runId)
    (hturn : TurnTaken s k call turn s') :
    (turn ≠ .resume ∧ Undecided calls runId c₀ s') ∨
      (turn = .resume ∧ ∃ c, DecidedBy calls runId k call c s') := by
  have hat := h.before hk hrun
  have hmoved : s'.checkpoints runId = s.checkpoints runId → (s'.coroutines k).Before →
      Undecided calls runId c₀ s' := by
    intro hcheckpoint hbefore
    refine ⟨hcheckpoint.trans h.checkpoint, ?_⟩
    intro i call' hi hrun'
    by_cases hik : i = k
    · subst hik
      exact hbefore
    · rw [hturn.coroutines_of_ne hik]
      exact h.before hi hrun'
  cases hturn with
  | setdefault lock => exact Or.inl ⟨by simp, hmoved rfl (by simpa using .waiting lock)⟩
  | acquire lock => exact Or.inl ⟨by simp, hmoved rfl (by simpa using .reading lock)⟩
  | reread lock =>
    refine Or.inl ⟨by simp, hmoved rfl ?_⟩
    rw [hrun, h.checkpoint]
    simpa [checked, hpaused] using .resuming lock
  | resume lock c c' hat' hc hstep =>
    refine Or.inr ⟨rfl, c', hk, hrun, by simp [hrun], ?_, by simpa using .running lock, ?_⟩
    · rw [hrun, h.checkpoint, Option.some.injEq] at hc
      subst hc
      exact applied_of_resumed hquiet hstep
    · intro i call' hik hi hrun'
      have hbefore := h.before hi hrun'
      rw [Server.setCoroutine_coroutines, Function.update_of_ne hik, Server.commit_coroutines]
      generalize hati : s.coroutines i = coroutine at hbefore ⊢
      cases hbefore with
      | started => exact .started
      | waiting lock => exact .waiting lock
      | reading lock => exact .reading lock
      | resuming =>
        -- two coroutines inside the block of one run
        exact absurd (hlocks.eq_of_inside hi hk (hrun'.trans hrun.symm) hati hat') hik
  | drive _ _ _ _ hat' | finish _ _ hat' | release _ _ hat' =>
    rw [hat'] at hat
    cases hat

/-- Behind the decision nobody resumes the graph again. -/
theorem DecidedBy.step (h : DecidedBy calls runId j call c s) (hlocks : Locking calls s)
    (hk : calls[k]? = some call') (hrun : call'.runId = runId)
    (hturn : TurnTaken s k call' turn s') :
    turn ≠ .resume ∧ ∃ c', DecidedBy calls runId j call c' s' := by
  by_cases hkj : k = j
  · subst hkj
    cases h.request.symm.trans hk
    have hwinner := h.winner
    have hmoved : ∀ {c'}, s'.checkpoints runId = some c' → Applied call c' →
        (s'.coroutines k).Winning c' → DecidedBy calls runId k call c' s' := by
      intro c' hcheckpoint happlied hwinner'
      refine ⟨hk, hrun, hcheckpoint, happlied, hwinner', ?_⟩
      intro i call' hik hi hrun'
      rw [hturn.coroutines_of_ne hik]
      exact h.others hik hi hrun'
    cases hturn with
    | drive lock i c₁ c' hat hc hgoing hstep =>
      rw [hrun, h.checkpoint, Option.some.injEq] at hc
      subst hc
      refine ⟨by simp, c', hmoved (by simp [hrun]) (h.applied.drive hgoing hstep) ?_⟩
      simpa [hat] using .running lock
    | finish lock c₁ hat hc hrest =>
      rw [hrun, h.checkpoint, Option.some.injEq] at hc
      subst hc
      have hfinished : c.next = .finished := by
        rcases h.applied.next with hnext | ⟨hnext, -⟩
        · exact hnext
        · rw [hnext] at hrest
          cases hrest
      refine ⟨by simp, c, hmoved h.checkpoint h.applied ?_⟩
      simpa using .leaving lock _ (h.applied.statusCode_decided _) hfinished
    | release lock response hat =>
      rw [hat] at hwinner
      cases hwinner with
      | leaving _ _ hstatus hfinished =>
        refine ⟨by simp, c, hmoved h.checkpoint h.applied ?_⟩
        simpa using .answered response hstatus hfinished
    | setdefault _ hat | acquire _ hat | reread _ hat | resume _ _ _ hat =>
      rw [hat] at hwinner
      cases hwinner
  · have hlosing := h.others hkj hk hrun
    have hmoved : s'.checkpoints runId = s.checkpoints runId → (s'.coroutines k).Losing →
        DecidedBy calls runId j call c s' := by
      intro hcheckpoint hlosing'
      refine ⟨h.request, h.run, hcheckpoint.trans h.checkpoint, h.applied, ?_, ?_⟩
      · rw [hturn.coroutines_of_ne (Ne.symm hkj)]
        exact h.winner
      · intro i call' hij hi hrun'
        by_cases hik : i = k
        · subst hik
          exact hlosing'
        · rw [hturn.coroutines_of_ne hik]
          exact h.others hij hi hrun'
    cases hturn with
    | setdefault lock => exact ⟨by simp, c, hmoved rfl (by simpa using .waiting lock)⟩
    | acquire lock => exact ⟨by simp, c, hmoved rfl (by simpa using .reading lock)⟩
    | reread lock hat =>
      -- the winner has left the block, so the run has ended
      have hfinished : c.next = .finished := by
        have hwinner := h.winner
        generalize hatj : s.coroutines j = coroutine at hwinner
        cases hwinner with
        | answered _ _ hfinished => exact hfinished
        | running | leaving =>
          exact absurd (hlocks.eq_of_inside hk h.request (hrun.trans h.run.symm) hat hatj) hkj
      refine ⟨by simp, c, hmoved rfl ?_⟩
      rw [hrun, h.checkpoint]
      simpa [checked, isAwaitingApproval, hfinished] using .leaving lock (notAwaiting runId c) rfl
    | release lock response hat =>
      rw [hat] at hlosing
      cases hlosing with
      | leaving _ _ hstatus =>
        exact ⟨by simp, c, hmoved rfl (by simpa using .answered response hstatus)⟩
    | resume _ _ _ hat | drive _ _ _ _ hat | finish _ _ hat =>
      rw [hat] at hlosing
      cases hlosing

end Turns

end StackMigrate
