import StackMigrate.Api.Service
import StackMigrate.Api.Turns
import StackMigrate.Graph.Shadows
import StackMigrate.Properties.Publication

/-!
# The life of a run

Between its submission and its end a run is absent, driven by a worker, awaiting a decision,
and decided on, in this order. Whatever API and workers do meanwhile, its checkpoint is one
of a run of the graph from the request that was submitted.
-/

namespace StackMigrate

/-! ### Calls -/

/-- There is no such run, or it does not wait. -/
def Response.isRefusal (response : Response) : Bool :=
  response.statusCode = 404 || response.statusCode = 409

namespace Coroutine

def isResuming : Coroutine → Bool
  | inside _ .resuming => true
  | _ => false

/-- The call has resumed the graph. -/
def hasResumed : Coroutine → Bool
  | inside _ .running => true
  | inside _ (.leaving response) | answered response => !response.isRefusal
  | _ => false

/-- The call does nothing to its run, at least for now. -/
def isIdle (coroutine : Coroutine) : Bool := !coroutine.isResuming && !coroutine.hasResumed

theorem not_hasResumed_of_isIdle {coroutine : Coroutine} (h : coroutine.isIdle = true) :
    coroutine.hasResumed = false := by
  simp only [isIdle, Bool.and_eq_true, Bool.not_eq_true'] at h
  exact h.2

/-- Inside the block nobody is away from the run. -/
theorem exists_place_of_isResuming {coroutine : Coroutine} (h : coroutine.isResuming = true) :
    ∃ lock, coroutine = .inside lock .resuming := by
  unfold isResuming at h
  split at h
  · exact ⟨_, rfl⟩
  · cases h

end Coroutine

/-- A call that has read the checkpoint is refused, or the run is waiting. -/
theorem isIdle_checked {runId : String} {checkpoint : Option Snapshot} {lock : RunLock}
    (h : ∀ c, checkpoint = some c → isAwaitingApproval c = false) :
    (Coroutine.inside lock (checked runId checkpoint)).isIdle = true := by
  cases checkpoint with
  | none => rfl
  | some c =>
    rw [checked, if_neg (by simp [h c rfl])]
    rfl

theorem not_hasResumed_checked {runId : String} {checkpoint : Option Snapshot} {lock : RunLock} :
    (Coroutine.inside lock (checked runId checkpoint)).hasResumed = false := by
  unfold checked
  split
  · rfl
  · split <;> rfl

/-! ### Lives of runs -/

/-- No call does anything to the run. -/
def Unasked (calls : List DecideCall) (server : Server) (runId : String) : Prop :=
  ∀ k, runOf calls k = some runId → (server.coroutines k).isIdle = true

/-- Where a run stands. -/
inductive Lifecycle (calls : List DecideCall) (server : Server) (job? : Option Job)
    (runId : String) : Prop
  /-- No worker has begun. -/
  | absent (hjob : ∀ job, job? = some job → job.stage = .queued ∨ job.stage = .ended)
      (hc : server.checkpoints runId = none) (hcalls : Unasked calls server runId)
  /-- The graph is a worker's own; the worker may have left it. -/
  | driven (job : Job) (hjob : job? = some job)
      (hstage : job.stage = .running ∨ job.stage = .ended) (c : Snapshot)
      (hc : server.checkpoints runId = some c) (hnot : isAwaitingApproval c = false)
      (hcalls : Unasked calls server runId)
  | awaiting (job : Job) (hjob : job? = some job)
      (hstage : job.stage = .atGate ∨ job.stage = .ended) (c : Snapshot)
      (hc : server.checkpoints runId = some c) (hawaiting : isAwaitingApproval c = true)
      (hcalls : ∀ k, runOf calls k = some runId → (server.coroutines k).hasResumed = false)
  /-- The call with number `j` has decided. -/
  | decided (job : Job) (hjob : job? = some job)
      (hstage : job.stage = .atGate ∨ job.stage = .ended) (c : Snapshot)
      (hc : server.checkpoints runId = some c) (j : ℕ) (call : DecideCall)
      (hj : calls[j]? = some call) (hrun : call.runId = runId) (happlied : Applied call c)
      (hwinner : (server.coroutines j).Winning c)
      (hcalls : ∀ k, k ≠ j → runOf calls k = some runId → (server.coroutines k).isIdle = true)

/-! ### What the steps do to a run -/

section Frames

variable {calls calls' : List DecideCall} {server server' : Server} {job? : Option Job}
  {runId : String}

/-- Nothing the run is concerned with changes. -/
theorem Lifecycle.frame (h : Lifecycle calls server job? runId)
    (hc : server'.checkpoints runId = server.checkpoints runId)
    (hat : ∀ k, runOf calls k = some runId → server'.coroutines k = server.coroutines k) :
    Lifecycle calls server' job? runId := by
  cases h with
  | absent hjob hnone hcalls =>
    exact .absent hjob (hc.trans hnone) fun k hk => by rw [hat k hk]; exact hcalls k hk
  | driven job hjob hstage c hsome hnot hcalls =>
    exact .driven job hjob hstage c (hc.trans hsome) hnot fun k hk => by
      rw [hat k hk]
      exact hcalls k hk
  | awaiting job hjob hstage c hsome hawaiting hcalls =>
    exact .awaiting job hjob hstage c (hc.trans hsome) hawaiting fun k hk => by
      rw [hat k hk]
      exact hcalls k hk
  | decided job hjob hstage c hsome j call hj hrun happlied hwinner hcalls =>
    refine .decided job hjob hstage c (hc.trans hsome) j call hj hrun happlied ?_ ?_
    · rw [hat j (hrun ▸ runOf_eq hj)]
      exact hwinner
    · intro k hkj hk
      rw [hat k hk]
      exact hcalls k hkj hk

theorem runOf_concat {call : DecideCall} {k : ℕ}
    (h : runOf (calls ++ [call]) k = some runId) :
    runOf calls k = some runId ∨ k = calls.length := by
  rcases lt_or_ge k calls.length with hlt | hge
  · rw [runOf, List.getElem?_append_left hlt] at h
    exact Or.inl h
  · obtain ⟨_, hsome, -⟩ := Option.map_eq_some_iff.mp h
    have hlt := (List.getElem?_eq_some_iff.mp hsome).1
    rw [List.length_append, List.length_singleton] at hlt
    exact Or.inr (by omega)

/-- New calls have not started. -/
theorem Lifecycle.addCall {call : DecideCall} (h : Lifecycle calls server job? runId)
    (hnew : server.coroutines calls.length = .started) :
    Lifecycle (calls ++ [call]) server job? runId := by
  have hcall : ∀ {k}, runOf (calls ++ [call]) k = some runId →
      runOf calls k = some runId ∨ server.coroutines k = .started := by
    intro k hk
    rcases runOf_concat hk with hold | rfl
    · exact Or.inl hold
    · exact Or.inr hnew
  have hunasked : Unasked calls server runId → Unasked (calls ++ [call]) server runId := by
    intro hcalls k hk
    rcases hcall hk with hold | hstarted
    · exact hcalls k hold
    · rw [hstarted]
      rfl
  cases h with
  | absent hjob hnone hcalls => exact .absent hjob hnone (hunasked hcalls)
  | driven job hjob hstage c hsome hnot hcalls =>
    exact .driven job hjob hstage c hsome hnot (hunasked hcalls)
  | awaiting job hjob hstage c hsome hawaiting hcalls =>
    refine .awaiting job hjob hstage c hsome hawaiting fun k hk => ?_
    rcases hcall hk with hold | hstarted
    · exact hcalls k hold
    · rw [hstarted]
      rfl
  | decided job hjob hstage c hsome j call' hj hrun happlied hwinner hcalls =>
    have hj' : (calls ++ [call])[j]? = some call' :=
      (List.getElem?_append_left (List.getElem?_eq_some_iff.mp hj).1).trans hj
    refine .decided job hjob hstage c hsome j call' hj' hrun happlied hwinner fun k hkj hk => ?_
    rcases hcall hk with hold | hstarted
    · exact hcalls k hkj hold
    · rw [hstarted]
      rfl

/-- The worker of a run may go at any time. -/
theorem Lifecycle.leave {job : Job} (h : Lifecycle calls server (some job) runId) :
    Lifecycle calls server (some { job with stage := .ended }) runId := by
  cases h with
  | absent hjob hnone hcalls => exact .absent (by rintro _ ⟨⟩; exact Or.inr rfl) hnone hcalls
  | driven _ _ _ c hsome hnot hcalls => exact .driven _ rfl (Or.inr rfl) c hsome hnot hcalls
  | awaiting _ _ _ c hsome hawaiting hcalls =>
    exact .awaiting _ rfl (Or.inr rfl) c hsome hawaiting hcalls
  | decided _ _ _ c hsome j call hj hrun happlied hwinner hcalls =>
    exact .decided _ rfl (Or.inr rfl) c hsome j call hj hrun happlied hwinner hcalls

end Frames

/-! ### The steps of the calls -/

section Turns

variable [UnicodeData] {calls : List DecideCall} {s s' : Server} {job? : Option Job}
  {runId : String} {j k : ℕ} {call : DecideCall} {turn : Turn} {c : Snapshot}

omit [UnicodeData] in
theorem Applied.not_awaiting (h : Applied call c) : isAwaitingApproval c = false := by
  rcases h.next with hnext | ⟨hnext, -⟩ <;> simp [isAwaitingApproval, hnext]

omit [UnicodeData] in
theorem Applied.finished (h : Applied call c) (hrest : c.next.isAtRest = true) :
    c.next = .finished := by
  rcases h.next with hnext | ⟨hnext, -⟩
  · exact hnext
  · rw [hnext] at hrest
    cases hrest

/-- A call that does nothing to the run commits nothing either, and goes on to resume the graph
only if the run waits. -/
theorem TurnTaken.idle (h : TurnTaken s k call turn s') (hidle : (s.coroutines k).isIdle = true) :
    s'.checkpoints = s.checkpoints ∧ (s'.coroutines k).hasResumed = false ∧
      ((∀ c, s.checkpoints call.runId = some c → isAwaitingApproval c = false) →
        (s'.coroutines k).isIdle = true) := by
  cases h with
  | setdefault | acquire => exact ⟨rfl, by simp [Coroutine.hasResumed], by
      simp [Coroutine.isIdle, Coroutine.hasResumed, Coroutine.isResuming]⟩
  | reread lock =>
    refine ⟨rfl, by simpa using not_hasResumed_checked, fun hnot => ?_⟩
    simpa using isIdle_checked hnot
  | release lock response hat =>
    rw [hat] at hidle
    have hrefused : (Coroutine.answered response).isIdle = true := hidle
    refine ⟨rfl, by simpa using Coroutine.not_hasResumed_of_isIdle hrefused, fun _ => ?_⟩
    simpa using hrefused
  | resume _ _ _ hat | drive _ _ _ _ hat | finish _ _ hat =>
    rw [hat] at hidle
    cases hidle

/-- What holds of a coroutine behind its turn, and held of the others before, holds of all. -/
theorem TurnTaken.all_coroutines {p : Coroutine → Prop} (h : TurnTaken s k call turn s')
    (hmoved : p (s'.coroutines k)) (hothers : ∀ i, i ≠ k → runOf calls i = some runId →
      p (s.coroutines i)) (i : ℕ) (hi : runOf calls i = some runId) : p (s'.coroutines i) := by
  by_cases hik : i = k
  · subst hik
    exact hmoved
  · rw [h.coroutines_of_ne hik]
    exact hothers i hik hi

/-- The call that resumes the graph decides on the run. -/
theorem lifecycle_of_awaiting (hlocks : Locking calls s) {job : Job} (hjob : job? = some job)
    (hstage : job.stage = .atGate ∨ job.stage = .ended)
    (hc : s.checkpoints call.runId = some c) (hawaiting : isAwaitingApproval c = true)
    (hquiet : publishCalls c.trace = [])
    (hcalls : ∀ k, runOf calls k = some call.runId → (s.coroutines k).hasResumed = false)
    (hk : calls[k]? = some call) (hturn : TurnTaken s k call turn s') :
    Lifecycle calls s' job? call.runId := by
  have hme := hcalls k (runOf_eq hk)
  cases hresuming : (s.coroutines k).isResuming with
  | false =>
    obtain ⟨hsame, hnot, -⟩ := hturn.idle (by simp [Coroutine.isIdle, hresuming, hme])
    exact .awaiting job hjob hstage c (by rw [hsame, hc]) hawaiting
      (hturn.all_coroutines (p := fun co => co.hasResumed = false) hnot fun i _ hi => hcalls i hi)
  | true =>
    obtain ⟨lock, hat⟩ := Coroutine.exists_place_of_isResuming hresuming
    cases hturn with
    | resume lock' c₁ c' hat' hc' hstep =>
      cases hc.symm.trans hc'
      refine .decided job hjob hstage c' (by simp) k call hk rfl (applied_of_resumed hquiet hstep)
        (by simpa using .running lock') fun i hik hi => ?_
      -- nobody else is inside the block of the run
      have hnot : (s.coroutines i).isResuming = false := by
        by_contra hresuming'
        obtain ⟨_, hat₂⟩ :=
          Coroutine.exists_place_of_isResuming (eq_true_of_ne_false hresuming')
        obtain ⟨call', hi', hrun'⟩ := Option.map_eq_some_iff.mp hi
        exact hik (hlocks.eq_of_inside hi' hk hrun' hat₂ hat)
      have hnot' := hcalls i hi
      simp [Function.update_of_ne hik, Coroutine.isIdle, hnot, hnot']
    | setdefault _ hat' | acquire _ hat' | reread _ hat' | drive _ _ _ _ hat' | finish _ _ hat'
    | release _ _ hat' =>
      rw [hat] at hat'
      cases hat'

/-- The call that has resumed the graph drives it on; the others are told so. -/
theorem lifecycle_of_decided {job : Job} (hjob : job? = some job)
    (hstage : job.stage = .atGate ∨ job.stage = .ended)
    (hc : s.checkpoints call.runId = some c) {winner : DecideCall} (hj : calls[j]? = some winner)
    (hrun : winner.runId = call.runId) (happlied : Applied winner c)
    (hwinner : (s.coroutines j).Winning c)
    (hcalls : ∀ k, k ≠ j → runOf calls k = some call.runId → (s.coroutines k).isIdle = true)
    (hk : calls[k]? = some call) (hturn : TurnTaken s k call turn s') :
    Lifecycle calls s' job? call.runId := by
  by_cases hkj : k = j
  · subst hkj
    cases hj.symm.trans hk
    have hmoved : ∀ {c'}, s'.checkpoints call.runId = some c' → Applied call c' →
        (s'.coroutines k).Winning c' → Lifecycle calls s' job? call.runId := by
      intro c' hc' happlied' hwinner'
      refine .decided job hjob hstage c' hc' k call hk rfl happlied' hwinner' ?_
      intro i hik hi
      rw [hturn.coroutines_of_ne hik]
      exact hcalls i hik hi
    cases hturn with
    | drive lock i c₁ c' hat hc' hgoing hstep =>
      cases hc.symm.trans hc'
      exact hmoved (by simp) (happlied.drive hgoing hstep) (by simpa [hat] using .running lock)
    | finish lock c₁ hat hc' hrest =>
      cases hc.symm.trans hc'
      refine hmoved hc happlied ?_
      simpa using .leaving lock _ (happlied.statusCode_decided _) (happlied.finished hrest)
    | release lock response hat =>
      rw [hat] at hwinner
      cases hwinner with
      | leaving _ _ hstatus hfinished =>
        exact hmoved hc happlied (by simpa using .answered response hstatus hfinished)
    | setdefault _ hat | acquire _ hat | reread _ hat | resume _ _ _ hat =>
      rw [hat] at hwinner
      cases hwinner
  · obtain ⟨hsame, -, hidle⟩ := hturn.idle (hcalls k hkj (runOf_eq hk))
    have hrefused : (s'.coroutines k).isIdle = true := by
      refine hidle fun c' hc' => ?_
      cases hc.symm.trans hc'
      exact happlied.not_awaiting
    refine .decided job hjob hstage c (by rw [hsame, hc]) j winner hj hrun happlied ?_ ?_
    · rw [hturn.coroutines_of_ne (Ne.symm hkj)]
      exact hwinner
    · intro i hij hi
      by_cases hik : i = k
      · subst hik
        exact hrefused
      · rw [hturn.coroutines_of_ne hik]
        exact hcalls i hij hi

theorem Lifecycle.turned (h : Lifecycle calls s job? runId) (hlocks : Locking calls s)
    (hquiet : ∀ c, s.checkpoints runId = some c → isAwaitingApproval c = true →
      publishCalls c.trace = [])
    (hk : calls[k]? = some call) (hturn : TurnTaken s k call turn s') :
    Lifecycle calls s' job? runId := by
  by_cases hrun : call.runId = runId
  swap
  · refine h.frame (hturn.checkpoints_of_ne (Ne.symm hrun)) fun i hi => ?_
    refine hturn.coroutines_of_ne ?_
    rintro rfl
    rw [runOf_eq hk, Option.some.injEq] at hi
    exact hrun hi
  subst hrun
  cases h with
  | absent hjob hc hcalls =>
    obtain ⟨hsame, -, hidle⟩ := hturn.idle (hcalls k (runOf_eq hk))
    exact .absent hjob (by rw [hsame, hc])
      (hturn.all_coroutines (p := fun co => co.isIdle = true) (hidle (by simp [hc]))
        fun i _ hi => hcalls i hi)
  | driven job hjob hstage c hc hnot hcalls =>
    obtain ⟨hsame, -, hidle⟩ := hturn.idle (hcalls k (runOf_eq hk))
    have hrefused : (s'.coroutines k).isIdle = true := by
      refine hidle fun c' hc' => ?_
      cases hc.symm.trans hc'
      exact hnot
    exact .driven job hjob hstage c (by rw [hsame, hc]) hnot
      (hturn.all_coroutines (p := fun co => co.isIdle = true) hrefused fun i _ hi => hcalls i hi)
  | awaiting job hjob hstage c hc hawaiting hcalls =>
    exact lifecycle_of_awaiting hlocks hjob hstage hc hawaiting (hquiet c hc hawaiting) hcalls hk
      hturn
  | decided job hjob hstage c hc j winner hj hrun happlied hwinner hcalls =>
    exact lifecycle_of_decided hjob hstage hc hj hrun happlied hwinner hcalls hk hturn

end Turns

/-! ### The steps of the workers -/

section Workers

variable {calls : List DecideCall} {s : Server} {runId : String} {job : Job} {c c' : Snapshot}
  {i : Input}

theorem Lifecycle.begun (h : Lifecycle calls s (some job) runId) (hstage : job.stage = .queued)
    (hnot : isAwaitingApproval c = false) :
    Lifecycle calls (s.commit runId c) (some { job with stage := .running }) runId := by
  cases h with
  | absent _ _ hcalls => exact .driven _ rfl (Or.inl rfl) c (by simp) hnot hcalls
  | driven job' hjob hstage' | awaiting job' hjob hstage' | decided job' hjob hstage' =>
    cases hjob
    rw [hstage] at hstage'
    simp at hstage'

variable [UnicodeData]

/-- The gate interrupts whoever comes to it. -/
theorem next_of_gate (hgate : c.next = .node .approvalGate) (h : graph.step c i = some c') :
    i = .approvalGate ∧ c'.next = .paused := by
  cases superstep_of_step h with
  | raised hraising => cases hraising <;> simp_all
  | approvalGate => exact ⟨rfl, rfl⟩
  | _ => simp_all

/-- Before the gate nobody waits in it. -/
theorem not_paused_of_step (hnot : isAwaitingApproval c = false) (h : graph.step c i = some c') :
    c'.next ≠ .paused := by
  unfold isAwaitingApproval at hnot
  cases superstep_of_step h with
  | comprehension | sandboxTest | aggregate =>
    simp only [Snapshot.moved_next, routeAfterComprehension, routeAfterAggregate]
    try split_ifs
    all_goals simp
  | synthesis _ _ hroute | budgetReconcile _ hroute | errorAnalysis _ _ hroute =>
    have hdispatched := dispatched_of_dispatch hroute
    rw [Snapshot.moved_next]
    cases hdispatched <;> simp
  | approvalGate hnext | resume hnext =>
    rw [hnext] at hnot
    cases hnot
  | _ => simp

/-- Whoever does not wait is not resumed. -/
theorem not_resume_of_step (hnot : c.next ≠ .paused) (h : graph.step c i = some c') :
    ∀ decision, i ≠ .resume decision := by
  rintro decision rfl
  cases superstep_of_step h with
  | raised hraising => cases hraising
  | resume hnext => exact hnot hnext

theorem Lifecycle.worked (h : Lifecycle calls s (some job) runId) (hstage : job.stage = .running)
    (hc : s.checkpoints runId = some c) (hstep : graph.step c i = some c') :
    Lifecycle calls (s.commit runId c')
      (some { job with stage := if c'.next = .node .approvalGate then .atGate else .running })
      runId := by
  cases h with
  | driven job' _ _ c₁ hc₁ hnot hcalls =>
    cases hc.symm.trans hc₁
    by_cases hgate : c'.next = .node .approvalGate
    · rw [if_pos hgate]
      exact .awaiting _ rfl (Or.inl rfl) c' (by simp) (by simp [isAwaitingApproval, hgate])
        fun k hk => Coroutine.not_hasResumed_of_isIdle (hcalls k hk)
    · rw [if_neg hgate]
      refine .driven _ rfl (Or.inl rfl) c' (by simp) ?_ hcalls
      have hpaused := not_paused_of_step hnot hstep
      unfold isAwaitingApproval
      split <;> simp_all
  | absent hjob =>
    have hstage' := hjob job rfl
    rw [hstage] at hstage'
    simp at hstage'
  | awaiting job' hjob hstage' | decided job' hjob hstage' =>
    cases hjob
    rw [hstage] at hstage'
    simp at hstage'

theorem Lifecycle.interrupted (h : Lifecycle calls s (some job) runId)
    (hc : s.checkpoints runId = some c) (hgate : c.next = .node .approvalGate)
    (hstep : graph.step c i = some c') :
    Lifecycle calls (s.commit runId c') (some { job with stage := .ended }) runId := by
  have hawaits : isAwaitingApproval c = true := by simp [isAwaitingApproval, hgate]
  cases h with
  | absent _ hnone =>
    rw [hnone] at hc
    cases hc
  | driven _ _ _ c₁ hc₁ hnot =>
    cases hc.symm.trans hc₁
    rw [hnot] at hawaits
    cases hawaits
  | awaiting _ _ _ c₁ hc₁ hawaiting hcalls =>
    have hpaused := (next_of_gate hgate hstep).2
    exact .awaiting _ rfl (Or.inr rfl) c' (by simp) (by simp [isAwaitingApproval, hpaused]) hcalls
  | decided _ _ _ c₁ hc₁ j call _ _ happlied =>
    cases hc.symm.trans hc₁
    rw [happlied.not_awaiting] at hawaits
    cases hawaits

end Workers

/-! ### The runs behind the checkpoints -/

/-- What a checkpoint is: the state of a run of the graph, resumed by nothing but calls. -/
def Backed [UnicodeData] (calls : List DecideCall) (payload : Payload) (runId : String)
    (c : Snapshot) : Prop :=
  ∃ (request : MigrationRequest) (localCheckoutPath targetWorkspacePath : String) (now : ℚ)
    (inputs : List Input) (d : Snapshot), payload = request.modelDump ∧
      graph.Run (initial (request.runConfig runId localCheckoutPath targetWorkspacePath)
        request.limits request.maxRetryRounds now) inputs d ∧ Shadow c d ∧
      ∀ decision, .resume decision ∈ inputs →
        ∃ call ∈ calls, call.runId = runId ∧ call.decision = decision

section Backing

variable [UnicodeData] {calls : List DecideCall} {payload : Payload} {runId : String}
  {c c' : Snapshot} {call : DecideCall} {i : Input}

namespace Backed

theorem addCall (h : Backed calls payload runId c) : Backed (calls ++ [call]) payload runId c := by
  obtain ⟨request, checkout, workspace, now, inputs, d, hpayload, hrun, hshadow, hresumed⟩ := h
  refine ⟨request, checkout, workspace, now, inputs, d, hpayload, hrun, hshadow, ?_⟩
  intro decision hmem
  obtain ⟨call', hcall', heq⟩ := hresumed decision hmem
  exact ⟨call', List.mem_append_left _ hcall', heq⟩

theorem step (h : Backed calls payload runId c) (hnot : c.next ≠ .paused)
    (hstep : graph.step c i = some c') : Backed calls payload runId c' := by
  obtain ⟨request, checkout, workspace, now, inputs, d, hpayload, hrun, hshadow, hresumed⟩ := h
  obtain ⟨d', hd', hshadow'⟩ := hshadow.step hstep
  refine ⟨request, checkout, workspace, now, _, d', hpayload, hrun.snoc hd', hshadow', ?_⟩
  intro decision hmem
  rcases List.mem_append.mp hmem with hmem | hmem
  · exact hresumed decision hmem
  · exact absurd (List.mem_singleton.mp hmem).symm (not_resume_of_step hnot hstep decision)

theorem resumed (h : Backed calls payload runId c) (hcall : call ∈ calls)
    (hrunId : call.runId = runId) (hawaiting : isAwaitingApproval c = true)
    (hstep : resumed c call.decision = some c') : Backed calls payload runId c' := by
  obtain ⟨request, checkout, workspace, now, inputs, d, hpayload, hrun, hshadow, hresumed⟩ := h
  obtain ⟨later, d', hrun', hshadow', hlater⟩ := hshadow.resumed hawaiting hstep
  refine ⟨request, checkout, workspace, now, _, d', hpayload, hrun.trans hrun', hshadow', ?_⟩
  intro decision hmem
  rcases List.mem_append.mp hmem with hmem | hmem
  · exact hresumed decision hmem
  · exact ⟨call, hcall, hrunId, ((hlater decision).mp hmem).symm⟩

/-- A run that waits has not called the publisher. -/
theorem publishCalls_eq_nil (h : Backed calls payload runId c)
    (hawaiting : isAwaitingApproval c = true) : publishCalls c.trace = [] := by
  obtain ⟨_, _, _, _, _, d, -, hrun, hshadow, -⟩ := h
  have hstage := stage_of_run hrun
  rw [hshadow.publishCalls_eq]
  rw [isAwaitingApproval, hshadow.next] at hawaiting
  split at hawaiting
  · next hpaused =>
    rw [hpaused] at hstage
    obtain ⟨-, -, payload, earlier, htrace, -, hquiet⟩ := hstage
    rw [htrace]
    simpa [publishCalls, Event.publishCall?] using hquiet.publishCalls_eq_nil
  · next hgate =>
    rw [hgate] at hstage
    exact hstage.1.publishCalls_eq_nil
  · cases hawaiting

end Backed

end Backing

/-! ### Histories -/

/-- What holds of the service at any time. -/
structure Sound [UnicodeData] (s : Service) : Prop where
  locking : Locking s.calls s.server
  started : ∀ k, s.calls.length ≤ k → s.server.coroutines k = .started
  lives : ∀ runId, Lifecycle s.calls s.server (s.jobs runId) runId
  requests : ∀ {runId job}, s.jobs runId = some job →
    ∃ request : MigrationRequest, job.payload = request.modelDump
  backed : ∀ {runId job c}, s.jobs runId = some job → s.server.checkpoints runId = some c →
    Backed s.calls job.payload runId c

section Histories

variable [UnicodeData] {apiKey : Option String} {validation : Validation} {s s' : Service}
  {happening : Happening} {happenings : List Happening} {runId : String}

omit [UnicodeData] in
theorem Lifecycle.exists_job {calls : List DecideCall} {server : Server} {job? : Option Job}
    {c : Snapshot} (h : Lifecycle calls server job? runId)
    (hc : server.checkpoints runId = some c) : ∃ job, job? = some job := by
  cases h with
  | absent _ hnone =>
    rw [hnone] at hc
    cases hc
  | driven job hjob | awaiting job hjob | decided job hjob => exact ⟨job, hjob⟩

omit [UnicodeData] in
theorem Lifecycle.awaiting_of_isResuming {calls : List DecideCall} {server : Server}
    {job? : Option Job} {k : ℕ} (h : Lifecycle calls server job? runId)
    (hk : runOf calls k = some runId) (hresuming : (server.coroutines k).isResuming = true) :
    ∃ c, server.checkpoints runId = some c ∧ isAwaitingApproval c = true := by
  have hbusy : (server.coroutines k).isIdle = false := by simp [Coroutine.isIdle, hresuming]
  cases h with
  | absent _ _ hcalls | driven _ _ _ _ _ _ hcalls =>
    rw [hcalls k hk] at hbusy
    cases hbusy
  | awaiting _ _ _ c hc hawaiting => exact ⟨c, hc, hawaiting⟩
  | decided _ _ _ c hc j call hj hrun happlied hwinner hcalls =>
    by_cases hkj : k = j
    · subst hkj
      obtain ⟨lock, hat⟩ := Coroutine.exists_place_of_isResuming hresuming
      rw [hat] at hwinner
      cases hwinner
    · rw [hcalls k hkj hk] at hbusy
      cases hbusy

/-- One run and its job change. -/
theorem Sound.change (h : Sound s) {server : Server} {job : Job}
    (hlocks : server.lockTable = s.server.lockTable)
    (hcoroutines : server.coroutines = s.server.coroutines)
    (hothers : ∀ r, r ≠ runId → server.checkpoints r = s.server.checkpoints r)
    (hlife : Lifecycle s.calls server (some job) runId)
    (hrequest : ∃ request : MigrationRequest, job.payload = request.modelDump)
    (hbacked : ∀ c, server.checkpoints runId = some c → Backed s.calls job.payload runId c) :
    Sound ((s.setServer server).setJob runId job) := by
  refine ⟨?_, ?_, ?_, ?_, ?_⟩
  · have hlocking := h.locking
    unfold Locking at hlocking ⊢
    simpa [hlocks] using hlocking
  · simpa [hcoroutines] using h.started
  · intro r
    by_cases hr : r = runId
    · subst hr
      simpa using hlife
    · have hframe := (h.lives r).frame (hothers r hr) fun k _ => by rw [hcoroutines]
      simpa [Function.update_of_ne hr] using hframe
  · intro r job' hjob'
    by_cases hr : r = runId
    · subst hr
      simp only [Service.setJob_jobs, Function.update_self, Option.some.injEq] at hjob'
      exact hjob' ▸ hrequest
    · exact h.requests (by simpa [Function.update_of_ne hr] using hjob')
  · intro r job' c hjob' hc
    by_cases hr : r = runId
    · subst hr
      simp only [Service.setJob_jobs, Function.update_self, Option.some.injEq] at hjob'
      exact hjob' ▸ hbacked c hc
    · refine h.backed (by simpa [Function.update_of_ne hr] using hjob') ?_
      rw [← hothers r hr]
      exact hc

theorem Sound.addCall (h : Sound s) (call : DecideCall) : Sound (s.addCall call) := by
  refine ⟨?_, ?_, fun r => (h.lives r).addCall (h.started _ le_rfl), h.requests,
    fun hjob hc => (h.backed hjob hc).addCall⟩
  · have hkeys : ∀ {k r}, runOf s.calls k = some r → runOf (s.calls ++ [call]) k = some r := by
      intro k r hk
      obtain ⟨call', hk', hr⟩ := Option.map_eq_some_iff.mp hk
      rw [runOf, List.getElem?_append_left (List.getElem?_eq_some_iff.mp hk').1]
      exact hk
    refine h.locking.extend hkeys ?_ ?_
    · rintro (r | k) r' hr
      · exact hr
      · exact hkeys hr
    · intro k r hk
      rcases runOf_concat hk with hold | rfl
      · exact Or.inl hold
      · exact Or.inr (by simp [Server.lockTable, h.started _ le_rfl, Coroutine.stage])
  · intro k hk
    refine h.started k ?_
    simp only [Service.addCall_calls, List.length_append, List.length_singleton] at hk
    omega

theorem Sound.turn (h : Sound s) {k : ℕ} {turn : Turn} {server : Server} {call : DecideCall}
    (hk : s.calls[k]? = some call) (hturn : TurnTaken s.server k call turn server) :
    Sound (s.setServer server) := by
  have hquiet : ∀ r c, s.server.checkpoints r = some c → isAwaitingApproval c = true →
      publishCalls c.trace = [] := by
    intro r c hc hawaiting
    obtain ⟨job, hjob⟩ := (h.lives r).exists_job hc
    exact (h.backed hjob hc).publishCalls_eq_nil hawaiting
  refine ⟨h.locking.step hk hturn, ?_, fun r => (h.lives r).turned h.locking (hquiet r) hk hturn,
    h.requests, ?_⟩
  · intro j hj
    have hjk : j ≠ k := by
      rintro rfl
      exact absurd (List.getElem?_eq_some_iff.mp hk).1 (by simpa using hj)
    rw [Service.setServer_server, hturn.coroutines_of_ne hjk]
    exact h.started j hj
  · intro r job c hjob hc
    by_cases hr : r = call.runId
    swap
    · rw [Service.setServer_server, hturn.checkpoints_of_ne hr] at hc
      exact h.backed hjob hc
    subst hr
    have hsame : server.checkpoints = s.server.checkpoints →
        Backed s.calls job.payload call.runId c := by
      intro hsame
      rw [Service.setServer_server, hsame] at hc
      exact h.backed hjob hc
    cases hturn with
    | resume lock c₁ c' hat hc₁ hstep =>
      obtain ⟨c₂, hc₂, hawaiting⟩ :=
        (h.lives call.runId).awaiting_of_isResuming (runOf_eq hk) (by rw [hat]; rfl)
      cases hc₁.symm.trans hc₂
      have hc' : c' = c := by simpa using hc
      subst hc'
      exact (h.backed hjob hc₁).resumed (List.mem_of_getElem? hk) rfl hawaiting hstep
    | drive lock i c₁ c' hat hc₁ hgoing hstep =>
      have hc' : c' = c := by simpa using hc
      subst hc'
      refine (h.backed hjob hc₁).step ?_ hstep
      intro hpaused
      rw [hpaused] at hgoing
      cases hgoing
    | _ => exact hsame rfl

/-- A run whose checkpoint stays as it is. -/
theorem Sound.setJob (h : Sound s) {job : Job}
    (hlife : Lifecycle s.calls s.server (some job) runId)
    (hrequest : ∃ request : MigrationRequest, job.payload = request.modelDump)
    (hbacked : ∀ c, s.server.checkpoints runId = some c → Backed s.calls job.payload runId c) :
    Sound (s.setJob runId job) :=
  h.change rfl rfl (fun _ _ => rfl) hlife hrequest hbacked

/-- A run whose worker has committed a checkpoint. -/
theorem Sound.commit (h : Sound s) {job : Job} {c : Snapshot}
    (hlife : Lifecycle s.calls (s.server.commit runId c) (some job) runId)
    (hrequest : ∃ request : MigrationRequest, job.payload = request.modelDump)
    (hbacked : Backed s.calls job.payload runId c) :
    Sound ((s.setServer (s.server.commit runId c)).setJob runId job) := by
  refine h.change rfl rfl (fun r hr => by simp [Function.update_of_ne hr]) hlife hrequest ?_
  intro c' hc'
  have hc : c = c' := by simpa using hc'
  exact hc ▸ hbacked

theorem Sound.step (h : Sound s) (hstep : Happened apiKey validation s happening s') :
    Sound s' := by
  cases hstep with
  | nothing => exact h
  | @submitted _ hex _ request hkey hrequest hnew =>
    have hlife := h.lives ("run-" ++ hex)
    rw [hnew] at hlife
    have hnone : s.server.checkpoints ("run-" ++ hex) = none := by
      cases hc : s.server.checkpoints ("run-" ++ hex) with
      | none => rfl
      | some c =>
        obtain ⟨job, hjob⟩ := hlife.exists_job hc
        cases hjob
    refine h.setJob ?_ ⟨request, rfl⟩ (by simp [hnone])
    cases hlife with
    | absent _ hc hcalls => exact .absent (by rintro _ ⟨⟩; exact Or.inl rfl) hc hcalls
    | driven _ hjob | awaiting _ hjob | decided _ hjob => cases hjob
  | called => exact h.addCall _
  | turned hk hturn => exact h.turn hk hturn
  | @left _ r job _ hjob =>
    have hlife := h.lives r
    rw [hjob] at hlife
    have hrequest := h.requests hjob
    have hbacked : ∀ c, s.server.checkpoints r = some c → Backed s.calls job.payload r c :=
      fun c hc => h.backed hjob hc
    exact h.setJob hlife.leave hrequest hbacked
  | @begun r _ checkout workspace now job request hjob hstage hrequest =>
    have hlife := h.lives r
    rw [hjob] at hlife
    obtain ⟨submitted, hpayload⟩ := h.requests hjob
    rw [hpayload, MigrationRequest.validate_modelDump, Option.some.injEq] at hrequest
    subst hrequest
    exact h.commit (hlife.begun hstage rfl) ⟨submitted, hpayload⟩
      ⟨submitted, checkout, workspace, now, [], _, hpayload, .refl, .refl _, by simp⟩
  | @worked r i job c c' hjob hstage hc hstep =>
    have hlife := h.lives r
    rw [hjob] at hlife
    have hrequest := h.requests hjob
    have hbacked := h.backed hjob hc
    refine h.commit (hlife.worked hstage hc hstep) hrequest (hbacked.step ?_ hstep)
    intro hpaused
    cases hlife with
    | driven _ _ _ c₁ hc₁ hnot =>
      cases hc.symm.trans hc₁
      simp [isAwaitingApproval, hpaused] at hnot
    | absent hjob' =>
      have hstage' := hjob' job rfl
      rw [hstage] at hstage'
      simp at hstage'
    | awaiting _ hjob' hstage' | decided _ hjob' hstage' =>
      cases hjob'
      rw [hstage] at hstage'
      simp at hstage'
  | @interrupted r i job c c' hjob hstage hc hgate hstep =>
    have hlife := h.lives r
    rw [hjob] at hlife
    have hrequest := h.requests hjob
    have hbacked := (h.backed hjob hc).step (by simp [hgate]) hstep
    exact h.commit (hlife.interrupted hc hgate hstep) hrequest hbacked

theorem sound_of_run (h : (service apiKey validation).Run .empty happenings s) : Sound s := by
  refine h.invariant (I := Sound) ?_ fun _ _ _ hs hstep _ => hs.step (happened_of_step hstep)
  exact ⟨locking_idle _ _ _, fun _ _ => rfl, fun _ => .absent (by simp [Service.empty]) rfl
    fun _ _ => rfl, by simp [Service.empty], by simp [Service.empty]⟩

end Histories

end StackMigrate
