import StackMigrate.Properties.Service

/-!
# Runs do not disturb each other

What becomes of a run is up to the requests about it that come with the key. A history can be
stripped of all the rest, and the run does not notice.
-/

namespace StackMigrate

/-! ### What concerns a run -/

/-- The happening is about the run, or makes a call known. -/
def Happening.concerns (calls : List DecideCall) (runId : String) : Happening → Bool
  | submit _ hex _ => "run-" ++ hex = runId
  | status _ _ => false
  | decide _ _ => true
  | turn k _ => runOf calls k = some runId
  | begin runId' _ _ _ _ | work runId' _ | leave runId' => runId' = runId

/-- The requests that are turned away concern nobody. -/
def Happening.isKept (apiKey : Option String) (calls : List DecideCall) (runId : String)
    (happening : Happening) : Bool :=
  !happening.isTurnedAway apiKey && happening.concerns calls runId

/-- The service looks the same to the run and to the calls for it. -/
structure SameRun (runId : String) (s s' : Service) : Prop where
  calls : s'.calls = s.calls
  job : s'.jobs runId = s.jobs runId
  server : SameFor s.calls runId s.server s'.server

section Unwinding

variable {runId r : String} {s s' : Service} {job : Job} {server : Server} {c : Snapshot}

namespace SameRun

theorem setJob (h : SameRun runId s s') (job : Job) :
    SameRun runId (s.setJob runId job) (s'.setJob runId job) :=
  ⟨h.calls, by simp, h.server⟩

theorem commit (h : SameRun runId s s') (c : Snapshot) :
    SameRun runId (s.setServer (s.server.commit runId c))
      (s'.setServer (s'.server.commit runId c)) :=
  ⟨h.calls, h.job, h.server.commit c⟩

theorem setJob_other (h : SameRun runId s s') (hr : r ≠ runId) (job : Job) :
    SameRun runId (s.setJob r job) s' :=
  ⟨h.calls, by simpa [Function.update_of_ne hr.symm] using h.job, h.server⟩

theorem commit_other (h : SameRun runId s s') (hr : r ≠ runId) (c : Snapshot) :
    SameRun runId (s.setServer (s.server.commit r c)) s' := by
  refine ⟨h.calls, h.job, ?_, h.server.runLock, h.server.locked, h.server.coroutines⟩
  simpa [Function.update_of_ne hr.symm] using h.server.checkpoint

end SameRun

variable [UnicodeData]

/-- A lock is free until its call has started. -/
theorem Sound.unlocked (h : Sound s) {k : ℕ} (hk : s.calls.length ≤ k) :
    s.server.locked (.made k) = false := by
  cases hlocked : s.server.locked (.made k) with
  | false => rfl
  | true =>
    obtain ⟨p, r, hp, hstage⟩ := h.locking.holder hlocked
    have hmade : (RunLock.made k).runId s.calls = some r :=
      KeyedLocks.Disciplined.madeFor_eq h.locking hp (by rw [hstage]; rfl)
    obtain ⟨_, hsome, -⟩ := Option.map_eq_some_iff.mp hmade
    have hlt := (List.getElem?_eq_some_iff.mp hsome).1
    omega

/-- A new call looks the same, too: nobody has started it. -/
theorem SameRun.addCall (h : SameRun runId s s') (hs : Sound s) (hs' : Sound s')
    (call : DecideCall) : SameRun runId (s.addCall call) (s'.addCall call) := by
  have hlength : s'.calls.length = s.calls.length := by rw [h.calls]
  refine ⟨by simp [h.calls], h.job, h.server.checkpoint, h.server.runLock, ?_, ?_⟩
  · intro lock hlock
    cases lock with
    | earlier => exact h.server.locked hlock
    | made k =>
      rcases runOf_concat hlock with hold | rfl
      · exact h.server.locked hold
      · exact (hs.unlocked le_rfl).trans (hs'.unlocked hlength.le).symm
  · intro k call' hk hrun
    have hrunOf : runOf (s.calls ++ [call]) k = some runId := hrun ▸ runOf_eq hk
    rcases runOf_concat hrunOf with hold | rfl
    · obtain ⟨call₁, hk₁, hrun₁⟩ := Option.map_eq_some_iff.mp hold
      exact h.server.coroutines hk₁ hrun₁
    · exact (hs.started _ le_rfl).trans (hs'.started _ hlength.le).symm

variable {apiKey : Option String} {validation : Validation} {all : List DecideCall}
  {happening : Happening} {s₁ : Service}

omit [UnicodeData] in
theorem runOf_of_isPrefix {calls : List DecideCall} {k : ℕ} {call : DecideCall}
    (hknown : calls <+: all) (hk : calls[k]? = some call) : runOf all k = some call.runId := by
  obtain ⟨later, rfl⟩ := hknown
  rw [runOf, List.getElem?_append_left (List.getElem?_eq_some_iff.mp hk).1, hk]
  rfl

/-- What concerns the run happens in the same way. -/
theorem SameRun.kept (h : SameRun runId s s') (hs : Sound s) (hs' : Sound s')
    (hknown : s.calls <+: all)
    (hstep : (service apiKey validation).step s happening = some s₁)
    (hkeep : happening.isKept apiKey all runId = true) :
    ∃ s₁', (service apiKey validation).step s' happening = some s₁' ∧ SameRun runId s₁ s₁' := by
  obtain ⟨haway, hconcerns⟩ := Bool.and_eq_true_iff.mp hkeep
  rw [Bool.not_eq_true'] at haway
  cases happening with
  | status => cases hconcerns
  | turn k turn =>
    obtain ⟨call, server, hk, hturn, rfl⟩ := turned_of_step hstep
    have hmine : call.runId = runId := by
      simpa [Happening.concerns, runOf_of_isPrefix hknown hk] using hconcerns
    obtain ⟨server', hturn', hserver⟩ := h.server.step hs.locking hk hmine hturn
    exact ⟨_, step_of_turned (h.calls ▸ hk) hturn', h.calls, h.job, hserver⟩
  | decide xApiKey call =>
    simp only [service, serviceStep, haway, Bool.false_eq_true, if_false, Option.some.injEq]
      at hstep ⊢
    subst hstep
    exact ⟨_, rfl, h.addCall hs hs' call⟩
  | submit xApiKey hex body =>
    simp only [Happening.concerns, decide_eq_true_eq] at hconcerns
    subst hconcerns
    simp only [service, serviceStep, haway, Bool.false_eq_true, if_false, h.job] at hstep ⊢
    cases hrequest : MigrationRequest.validate validation body with
    | none =>
      simp only [hrequest, Option.some.injEq] at hstep ⊢
      subst hstep
      exact ⟨_, rfl, h⟩
    | some request =>
      simp only [hrequest] at hstep ⊢
      split_ifs at hstep ⊢ with hnew
      cases hstep
      exact ⟨_, rfl, h.setJob _⟩
  | begin r workerValidation checkout workspace now =>
    simp only [Happening.concerns, decide_eq_true_eq] at hconcerns
    subst hconcerns
    simp only [service, serviceStep, haway, Bool.false_eq_true, if_false, Option.bind_eq_bind,
      Option.bind_eq_some_iff, h.job] at hstep ⊢
    obtain ⟨job, hjob, hstep⟩ := hstep
    simp only [hjob, Option.some.injEq, exists_eq_left']
    split_ifs at hstep ⊢ with hstage
    cases hstep
    unfold beginJob
    cases MigrationRequest.validate workerValidation job.payload with
    | none => exact ⟨_, rfl, h.setJob _⟩
    | some request => exact ⟨_, rfl, (h.commit _).setJob _⟩
  | work r i =>
    simp only [Happening.concerns, decide_eq_true_eq] at hconcerns
    subst hconcerns
    simp only [service, serviceStep, haway, Bool.false_eq_true, if_false, Option.bind_eq_bind,
      Option.bind_eq_some_iff, h.job, ← h.server.checkpoint] at hstep ⊢
    obtain ⟨job, hjob, c, hc, hstep⟩ := hstep
    simp only [hjob, hc, Option.some.injEq, exists_eq_left']
    unfold workJob at hstep ⊢
    split at hstep
    · split_ifs at hstep ⊢
      obtain ⟨c', hc', rfl⟩ := Option.map_eq_some_iff.mp hstep
      exact ⟨_, Option.map_eq_some_iff.mpr ⟨c', hc', rfl⟩, (h.commit _).setJob _⟩
    · split_ifs at hstep ⊢
      · obtain ⟨c', hc', rfl⟩ := Option.map_eq_some_iff.mp hstep
        exact ⟨_, Option.map_eq_some_iff.mpr ⟨c', hc', rfl⟩, (h.commit _).setJob _⟩
      · cases hstep
        exact ⟨_, rfl, h.setJob _⟩
    · cases hstep
    · cases hstep
  | leave r =>
    simp only [Happening.concerns, decide_eq_true_eq] at hconcerns
    subst hconcerns
    simp only [service, serviceStep, haway, Bool.false_eq_true, if_false, Option.bind_eq_bind,
      Option.bind_eq_some_iff, h.job] at hstep ⊢
    obtain ⟨job, hjob, hstep⟩ := hstep
    cases hstep
    exact ⟨_, ⟨job, hjob, rfl⟩, h.setJob _⟩

/-- What does not concern the run goes unnoticed. -/
theorem SameRun.dropped (h : SameRun runId s s') (hs : Sound s) (hknown : s.calls <+: all)
    (hstep : (service apiKey validation).step s happening = some s₁)
    (hdrop : happening.isKept apiKey all runId = false) : SameRun runId s₁ s' := by
  cases haway : happening.isTurnedAway apiKey with
  | true =>
    simp only [service, serviceStep, haway, if_true, Option.some.injEq] at hstep
    exact hstep ▸ h
  | false =>
    have hother : happening.concerns all runId = false := by
      simpa [Happening.isKept, haway] using hdrop
    cases happened_of_step hstep with
    | nothing => exact h
    | called => cases hother
    | submitted => exact h.setJob_other (by simpa [Happening.concerns] using hother) _
    | begun | worked | interrupted =>
      simp only [Happening.concerns, decide_eq_false_iff_not] at hother
      exact (h.commit_other hother _).setJob_other hother _
    | turned hk hturn =>
      refine ⟨h.calls, h.job, h.server.frame hs.locking hk ?_ hturn⟩
      simpa [Happening.concerns, runOf_of_isPrefix hknown hk] using hother
    | @left _ r _ hany =>
      refine h.setJob_other ?_ _
      rintro rfl
      cases happening <;> simp_all [Happening.workedOn?, Happening.concerns]

theorem calls_of_step (hstep : (service apiKey validation).step s happening = some s₁) :
    s.calls <+: s₁.calls := by
  cases happened_of_step hstep with
  | called => exact List.prefix_append _ _
  | _ => exact List.prefix_rfl

/-- A history without the requests that are turned away, those that only look, and everything about
other runs leads to the same job, the same checkpoint and the same answers for the run. -/
theorem runs_are_isolated {happenings : List Happening}
    (h : (service apiKey validation).Run .empty happenings s) (runId : String) :
    ∃ s', (service apiKey validation).Run .empty
        (happenings.filter (Happening.isKept apiKey s.calls runId)) s' ∧
      s'.jobs runId = s.jobs runId ∧
      s'.server.checkpoints runId = s.server.checkpoints runId ∧
      ∀ k call, s.calls[k]? = some call → call.runId = runId →
        s'.calls[k]? = some call ∧ s'.server.coroutines k = s.server.coroutines k := by
  have hknown := h.all_along (Q := fun t => t.calls <+: s.calls) List.prefix_rfl
    fun c i c' hstep hknown => (calls_of_step hstep).trans hknown
  have hstart : Sound Service.empty := sound_of_run (.refl : (service apiKey validation).Run _ [] _)
  have hpurged := hknown.purge (Happening.isKept apiKey s.calls runId)
    (fun t t' => Sound t ∧ Sound t' ∧ SameRun runId t t') ⟨hstart, hstart, rfl, rfl, .refl _ _ _⟩
    (by
      rintro t happening t₁ t' ⟨ht, ht', hsame⟩ hstep hknown hkeep
      obtain ⟨t₁', hstep', hsame'⟩ :=
        hsame.kept ht ht' ((calls_of_step hstep).trans hknown) hstep hkeep
      exact ⟨t₁', hstep', ht.step (happened_of_step hstep), ht'.step (happened_of_step hstep'),
        hsame'⟩)
    (by
      rintro t happening t₁ t' ⟨ht, ht', hsame⟩ hstep hknown hdrop
      exact ⟨ht.step (happened_of_step hstep), ht',
        hsame.dropped ht ((calls_of_step hstep).trans hknown) hstep hdrop⟩)
  obtain ⟨s', hrun, -, -, hsame⟩ := hpurged
  refine ⟨s', hrun, hsame.job, hsame.server.checkpoint.symm, fun k call hk hmine => ?_⟩
  exact ⟨hsame.calls ▸ hk, (hsame.server.coroutines hk hmine).symm⟩

end Unwinding

section Demo

attribute [local instance] asciiTables

/-- The requests without the key leave no trace. -/
theorem runs_are_isolated_demo :
    ∃ s s' : Service, demoPublished s = true ∧
      (service (some "key") .unset).Run .empty
        (demoHistory.filter (Happening.isKept (some "key") s.calls "run-000000000001")) s' ∧
      s'.server.checkpoints "run-000000000001" = s.server.checkpoints "run-000000000001" := by
  have hdemo : runDemo.any demoPublished = true := by decide +kernel
  obtain ⟨s, hrun, hpublished⟩ := run_of_runDemo hdemo
  obtain ⟨s', hrun', -, hc, -⟩ := runs_are_isolated hrun "run-000000000001"
  exact ⟨s, s', hpublished, hrun', hc⟩

end Demo

end StackMigrate
