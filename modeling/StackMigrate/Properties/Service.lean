import StackMigrate.Api.Lifecycle
import StackMigrate.Graph.Drafts

/-!
# From a request to a pull request

What the service does goes back to requests with the key it asks for: every run to the one
submission it was made from, every decision to a call, every pull request to both.
-/

namespace StackMigrate

/-! ### Causes -/

/-- The run is submitted. -/
def Submits (apiKey : Option String) (validation : Validation) (runId : String)
    (request : MigrationRequest) (happening : Happening) : Prop :=
  ∃ xApiKey hex body, happening = .submit xApiKey hex body ∧ admits apiKey xApiKey = true ∧
    runId = "run-" ++ hex ∧ MigrationRequest.validate validation body = some request

/-- The call is made. -/
def Calls (apiKey : Option String) (call : DecideCall) (happening : Happening) : Prop :=
  ∃ xApiKey, happening = .decide xApiKey call ∧ admits apiKey xApiKey = true

section Causes

variable [UnicodeData] {apiKey : Option String} {validation : Validation} {s : Service}
  {happenings : List Happening} {runId : String} {call : DecideCall}

theorem calls_of_mem (h : (service apiKey validation).Run .empty happenings s)
    (hcall : call ∈ s.calls) : ∃ happening ∈ happenings, Calls apiKey call happening := by
  refine h.caused (fun s call => call ∈ s.calls) (fun happening call => Calls apiKey call happening)
    (by simp [Service.empty]) ?_ hcall
  intro s happening s' call hstep hmem
  cases happened_of_step hstep with
  | called hkey =>
    rcases List.mem_append.mp hmem with hmem | hmem
    · exact Or.inl hmem
    · exact Or.inr ⟨_, by rw [List.mem_singleton.mp hmem], hkey⟩
  | _ => exact Or.inl hmem

omit [UnicodeData] in
theorem modelDump_injective {r r' : MigrationRequest} (h : r.modelDump = r'.modelDump) :
    r = r' := by
  have hboth := r.validate_modelDump .unset
  rw [h, MigrationRequest.validate_modelDump, Option.some.injEq] at hboth
  exact hboth.symm

/-- The dumped request that a worker finds. -/
def Service.payload? (s : Service) (runId : String) : Option Payload :=
  (s.jobs runId).map Job.payload

/-- Requests enter by submission, and stay as they are. -/
theorem payload_of_step {s' : Service} {happening : Happening}
    (h : Happened apiKey validation s happening s') (runId : String) :
    s'.payload? runId = s.payload? runId ∨
      ∃ request, Submits apiKey validation runId request happening ∧ s.payload? runId = none ∧
        s'.payload? runId = some request.modelDump := by
  have hkept : ∀ {r : String} {old new : Job}, s.jobs r = some old → new.payload = old.payload →
      (Function.update s.jobs r (some new) runId).map Job.payload = s.payload? runId := by
    intro r old new hold hsame
    by_cases hr : runId = r
    · subst hr
      simp [Service.payload?, hold, hsame]
    · rw [Function.update_of_ne hr, Service.payload?]
  cases h with
  | @submitted xApiKey hex body request hkey hrequest hnew =>
    by_cases hr : runId = "run-" ++ hex
    · subst hr
      exact Or.inr ⟨request, ⟨xApiKey, hex, body, rfl, hkey, rfl, hrequest⟩,
        by simp [Service.payload?, hnew], by simp [Service.payload?]⟩
    · exact Or.inl (by simp [Service.payload?, Function.update_of_ne hr])
  | nothing | called | turned => exact Or.inl rfl
  | left _ hold | begun _ hold | worked hold | interrupted hold => exact Or.inl (hkept hold rfl)

theorem submits_of_payload (h : (service apiKey validation).Run .empty happenings s)
    {request : MigrationRequest} (hpayload : s.payload? runId = some request.modelDump) :
    ∃ happening ∈ happenings, Submits apiKey validation runId request happening := by
  refine h.caused (fun s (request : MigrationRequest) => s.payload? runId = some request.modelDump)
    (fun happening request => Submits apiKey validation runId request happening)
    (by simp [Service.payload?, Service.empty]) ?_ hpayload
  intro s happening s' request hstep hpayload
  rcases payload_of_step (happened_of_step hstep) runId with hsame | ⟨request', hsubmits, -, hnew⟩
  · exact Or.inl (hsame ▸ hpayload)
  · rw [hnew, Option.some.injEq] at hpayload
    exact Or.inr (modelDump_injective hpayload ▸ hsubmits)

/-- A run keeps the request it was submitted with, and nobody submits it again. -/
theorem payload_of_submits (h : (service apiKey validation).Run .empty happenings s)
    {request : MigrationRequest} {happening : Happening} (hmem : happening ∈ happenings)
    (hsubmits : Submits apiKey validation runId request happening) :
    s.payload? runId = some request.modelDump := by
  induction h with
  | refl => cases hmem
  | @snoc earlier s i s' _ hstep _ ih =>
    have hcases := payload_of_step (happened_of_step hstep) runId
    rcases List.mem_append.mp hmem with hmem | hmem
    · rcases hcases with hsame | ⟨_, -, hnone, -⟩
      · rw [hsame, ih hmem]
      · rw [ih hmem] at hnone
        cases hnone
    · rw [List.mem_singleton] at hmem
      subst hmem
      obtain ⟨xApiKey, hex, body, rfl, hkey, rfl, hrequest⟩ := hsubmits
      have hstep' := hstep
      simp only [service, serviceStep, Happening.isTurnedAway, Happening.xApiKey?, hrequest,
        Option.any_some, hkey, Bool.not_true, Bool.false_eq_true, if_false] at hstep'
      split_ifs at hstep'
      cases hstep'
      simp [Service.payload?]

end Causes

/-! ### Refinement -/

section Runs

variable [UnicodeData] {apiKey : Option String} {validation : Validation} {s : Service}
  {happenings : List Happening} {runId : String} {c : Snapshot}

theorem backed_of_run (h : (service apiKey validation).Run .empty happenings s)
    (hc : s.server.checkpoints runId = some c) :
    ∃ payload, s.payload? runId = some payload ∧ Backed s.calls payload runId c := by
  have hs := sound_of_run h
  obtain ⟨job, hjob⟩ := (hs.lives runId).exists_job hc
  exact ⟨job.payload, by rw [Service.payload?, hjob]; rfl, hs.backed hjob hc⟩

/-- Whatever API and workers do, in any order, the checkpoint of a run is one of the graph, started
from exactly the request that one authorised submission carried and resumed by nothing but
authorised calls for it. -/
theorem checkpoints_are_submitted_runs (h : (service apiKey validation).Run .empty happenings s)
    (hc : s.server.checkpoints runId = some c) :
    ∃ (request : MigrationRequest) (localCheckoutPath targetWorkspacePath : String) (now : ℚ)
      (inputs : List Input) (d : Snapshot),
      (∃ happening ∈ happenings, Submits apiKey validation runId request happening) ∧
      (∀ happening ∈ happenings, ∀ request', Submits apiKey validation runId request' happening →
        request' = request) ∧
      graph.Run (initial (request.runConfig runId localCheckoutPath targetWorkspacePath)
        request.limits request.maxRetryRounds now) inputs d ∧
      c.state = d.state ∧ c.next = d.next ∧ uninterrupted c.trace = uninterrupted d.trace ∧
      ∀ decision, .resume decision ∈ inputs → ∃ call, call.runId = runId ∧
        call.decision = decision ∧ ∃ happening ∈ happenings, Calls apiKey call happening := by
  obtain ⟨payload, hpayload, request, checkout, workspace, now, inputs, d, rfl, hrun, hshadow,
    hresumed⟩ := backed_of_run h hc
  refine ⟨request, checkout, workspace, now, inputs, d, submits_of_payload h hpayload, ?_, hrun,
    hshadow.state, hshadow.next, hshadow.trace, ?_⟩
  · intro happening hmem request' hsubmits
    have hsame := payload_of_submits h hmem hsubmits
    rw [hpayload, Option.some.injEq] at hsame
    exact modelDump_injective hsame.symm
  · intro decision hmem
    obtain ⟨call, hcall, hcallRun, hdecision⟩ := hresumed decision hmem
    exact ⟨call, hcallRun, hdecision, calls_of_mem h hcall⟩

end Runs

section Demo

attribute [local instance] asciiTables

def demoBody : Payload :=
  [("source_repo_url", .str "https://example.org/shop.git"), ("source_stack", .str "springboot"),
    ("target_stack", .str "fastapi"), ("scope_description", .str "orders"),
    ("github_target_repo", .str "owner/shop")]

/-- One run, approved before its worker has come to the gate. Two requests have no key. -/
def demoHistory : List Happening :=
  [.submit none "000000000000" demoBody, .submit (some "key") "000000000001" demoBody,
      .begin "run-000000000001" .unset "/checkout" "/workspace" 0] ++
    (approvedRun.take 7).map (.work "run-000000000001") ++
    [.decide none ⟨"run-000000000001", true, none⟩,
      .decide (some "key") ⟨"run-000000000001", true, none⟩, .turn 0 .setdefault,
      .turn 0 .acquire, .turn 0 .reread, .turn 0 .resume,
      .turn 0 (.drive (.prPublish (.ok demoPullRequest))), .turn 0 .finish, .turn 0 .release]

def runDemo : Option Service :=
  (service (some "key") .unset).exec (fun _ _ _ => True) .empty demoHistory

theorem run_of_runDemo {p : Service → Bool} (h : runDemo.any p = true) :
    ∃ s, (service (some "key") .unset).Run .empty demoHistory s ∧ p s = true :=
  DrivenSystem.exists_runWhere_of_exec h

/-- The run has called the publisher. -/
def demoPublished (s : Service) : Bool :=
  (s.server.checkpoints "run-000000000001").any endsPublishing

theorem checkpoints_are_submitted_runs_demo :
    ∃ (s : Service) (c : Snapshot), s.server.checkpoints "run-000000000001" = some c ∧
      endsPublishing c = true ∧ ∃ request happening, happening ∈ demoHistory ∧
        Submits (some "key") .unset "run-000000000001" request happening := by
  have hdemo : runDemo.any demoPublished = true := by decide +kernel
  obtain ⟨s, hrun, hpublished⟩ := run_of_runDemo hdemo
  unfold demoPublished at hpublished
  cases hc : s.server.checkpoints "run-000000000001" with
  | none => simp [hc] at hpublished
  | some c =>
    obtain ⟨request, _, _, _, _, _, ⟨happening, hmem, hsubmits⟩, -⟩ :=
      checkpoints_are_submitted_runs hrun hc
    exact ⟨s, c, hc, by simpa [hc] using hpublished, request, happening, hmem, hsubmits⟩

end Demo

section Runs

variable [UnicodeData] {apiKey : Option String} {validation : Validation} {s : Service}
  {happenings : List Happening} {runId : String} {c : Snapshot}

/-! ### Authority -/

/-- A decision on record was given to the graph. -/
theorem resume_mem_inputs {start d : Snapshot} {inputs : List Input} {decision : Json}
    (h : graph.Run start inputs d) (hstart : start.trace = [])
    (hmem : .resume decision ∈ d.trace) : .resume decision ∈ inputs := by
  have hcaused : ∃ i ∈ inputs, i = .resume decision := by
    refine h.caused (fun c decision => Event.resume decision ∈ c.trace)
      (fun i decision => i = Input.resume decision) (by simp [hstart]) ?_ hmem
    intro c i c' decision hstep hmem
    cases superstep_of_step hstep with
    | raised hraising =>
      refine (List.mem_cons.mp hmem).symm.imp_right fun heq => ?_
      cases hraising <;> cases heq
    | comprehension _ hpass | sandboxTest _ hpass | errorAnalysis _ hpass =>
      refine (List.mem_cons.mp hmem).symm.imp_right fun heq => ?_
      cases hpass <;> cases heq
    | resume =>
      refine (List.mem_cons.mp hmem).symm.imp_right fun heq => ?_
      cases heq
      rfl
    | _ =>
      refine (List.mem_cons.mp hmem).symm.imp_right fun heq => ?_
      cases heq
  obtain ⟨i, hi, rfl⟩ := hcaused
  exact hi

omit [UnicodeData] in
theorem mem_of_publishCalls {trace : List Event} {call : PublishCall}
    (h : call ∈ publishCalls trace) : .prPublish (.called call) ∈ trace := by
  obtain ⟨event, hmem, hpublish⟩ := List.mem_filterMap.mp h
  have hevent : event = .prPublish (.called call) := by
    unfold Event.publishCall? at hpublish
    split at hpublish <;> simp_all
  exact hevent ▸ hmem

/-- What allows a run to call the publisher. -/
theorem clearance_of_publishCall {config : MigrationRunConfig} {limits : BudgetLimits}
    {maxRetryRounds : ℤ} {startedAt : ℚ} {inputs : List Input} {d : Snapshot}
    (h : graph.Run (initial config limits maxRetryRounds startedAt) inputs d) {call : PublishCall}
    (hcall : call ∈ publishCalls d.trace) :
    hasTargetRepo d.state = true ∧ (needsHumanApproval d.state = false ∨
      ∃ decision, isApproval decision = true ∧ .resume decision ∈ inputs) := by
  obtain ⟨-, earlier, htrace, -, hclearance, -, hfiles⟩ :=
    published_of_mem (stage_of_run h) (mem_of_publishCalls hcall)
  refine ⟨(hfiles call rfl).1, ?_⟩
  cases hclearance with
  | unneeded hneeds => exact Or.inl hneeds
  | approved hdecision =>
    exact Or.inr ⟨_, hdecision, resume_mem_inputs h rfl (by simp [htrace])⟩

omit [UnicodeData] in
/-- The API starts with a key, or because it was told to do without. -/
theorem key_of_loadApiKey {environ : String → Option String} {apiKey : Option String}
    (h : loadApiKey environ = .ok apiKey) :
    (∃ key, environ "STACKMIGRATE_API_KEY" = some key ∧ key ≠ "" ∧ apiKey = some key) ∨
      (environ "STACKMIGRATE_ALLOW_NO_AUTH" = some "1" ∧ apiKey = none) := by
  have hwithout : loadApiKey.withoutKey environ = .ok apiKey →
      environ "STACKMIGRATE_ALLOW_NO_AUTH" = some "1" ∧ apiKey = none := by
    intro h
    unfold loadApiKey.withoutKey at h
    split_ifs at h with hallowed
    cases h
    exact ⟨hallowed, rfl⟩
  unfold loadApiKey at h
  split at h
  · next key hkey =>
    split_ifs at h with hempty
    · cases h
      exact Or.inl ⟨key, hkey, hempty, rfl⟩
    · exact Or.inr (hwithout h)
  · exact Or.inr (hwithout h)

/-- A service that was not told to do without a key opens a pull request only for a run that was
submitted with the key, in the repository that the submission names and with `main` as its base,
and only if the submission waives approval or somebody with the key approves; once at most. -/
theorem publications_are_authorised {environ : String → Option String}
    (hboot : loadApiKey environ = .ok apiKey)
    (hclosed : environ "STACKMIGRATE_ALLOW_NO_AUTH" ≠ some "1")
    (h : (service apiKey validation).Run .empty happenings s)
    (hc : s.server.checkpoints runId = some c) {call : PublishCall}
    (hcall : call ∈ publishCalls c.trace) :
    ∃ key, environ "STACKMIGRATE_API_KEY" = some key ∧ key ≠ "" ∧ publishCalls c.trace = [call] ∧
      ∃ hex body request repo, .submit (some key) hex body ∈ happenings ∧
        runId = "run-" ++ hex ∧ MigrationRequest.validate validation body = some request ∧
        request.githubTargetRepo = some repo ∧ repo ≠ "" ∧ call.repoFullName = .str repo ∧
        call.baseBranch = "main" ∧
        (request.requireHumanApprovalBeforePr = false ∨
          ∃ decision, .decide (some key) decision ∈ happenings ∧ decision.runId = runId ∧
            decision.approved = true) := by
  obtain ⟨key, hkey, hne, rfl⟩ | ⟨hopen, -⟩ := key_of_loadApiKey hboot
  swap
  · exact absurd hopen hclosed
  have hkeys : ∀ {xApiKey}, admits (some key) xApiKey = true → xApiKey = some key := by
    intro xApiKey hadmits
    simpa [admits] using hadmits
  obtain ⟨payload, hpayload, request, checkout, workspace, now, inputs, d, rfl, hrun, hshadow,
    hresumed⟩ := backed_of_run h hc
  obtain ⟨_, hmem, xApiKey, hex, body, rfl, hadmits, rfl, hrequest⟩ :=
    submits_of_payload h hpayload
  cases hkeys hadmits
  rw [hshadow.publishCalls_eq] at hcall
  have honce : publishCalls c.trace = [call] := by
    have hle := length_publishCalls_le_one (stage_of_run hrun)
    rw [hshadow.publishCalls_eq]
    obtain ⟨before, after, hsplit⟩ := List.append_of_mem hcall
    rw [hsplit] at hle ⊢
    simp only [List.length_append, List.length_cons] at hle
    have hbefore : before = [] := List.length_eq_zero_iff.mp (by omega)
    have hafter : after = [] := List.length_eq_zero_iff.mp (by omega)
    rw [hbefore, hafter, List.nil_append]
  obtain ⟨-, hmade, hconfig⟩ := publishCall_of_run hrun hcall
  obtain ⟨htarget, hcleared⟩ := clearance_of_publishCall hrun hcall
  refine ⟨key, hkey, hne, honce, hex, body, request, ?_⟩
  have hrepo := htarget
  rw [hasTargetRepo, hconfig] at hrepo
  cases hname : request.githubTargetRepo with
  | none => simp [MigrationRequest.runConfig, hname, Json.truthy] at hrepo
  | some repo =>
    refine ⟨repo, hmem, rfl, hrequest, rfl, ?_, ?_, ?_, ?_⟩
    · simpa [MigrationRequest.runConfig, hname, Json.truthy] using hrepo
    · simp [hmade, publishCall, hconfig, MigrationRequest.runConfig, hname]
    · simp [hmade, publishCall, hconfig, MigrationRequest.runConfig]
    · rcases hcleared with hneeds | ⟨decision, happroval, hmem'⟩
      · refine Or.inl ?_
        rw [needsHumanApproval, htarget, hconfig] at hneeds
        simpa [MigrationRequest.runConfig, Json.truthy] using hneeds
      · obtain ⟨called, hcalled, hcalledRun, rfl⟩ := hresumed decision hmem'
        obtain ⟨_, hmem', xApiKey', rfl, hadmits'⟩ := calls_of_mem h hcalled
        cases hkeys hadmits'
        rw [isApproval_decision] at happroval
        exact Or.inr ⟨called, hmem', hcalledRun, happroval⟩

end Runs

section Demo

attribute [local instance] asciiTables

def demoEnviron (name : String) : Option String :=
  if name = "STACKMIGRATE_API_KEY" then some "key" else none

theorem publications_are_authorised_demo :
    ∃ (s : Service) (c : Snapshot) (call : PublishCall) (repo : String),
      s.server.checkpoints "run-000000000001" = some c ∧ publishCalls c.trace = [call] ∧
      call.repoFullName = .str repo ∧ repo ≠ "" ∧ call.baseBranch = "main" := by
  have hdemo : runDemo.any demoPublished = true := by decide +kernel
  obtain ⟨s, hrun, hpublished⟩ := run_of_runDemo hdemo
  unfold demoPublished at hpublished
  cases hc : s.server.checkpoints "run-000000000001" with
  | none => simp [hc] at hpublished
  | some c =>
    rw [hc, Option.any_some] at hpublished
    obtain ⟨call, earlier, htrace⟩ := trace_of_endsPublishing hpublished
    have hcall : call ∈ publishCalls c.trace := by
      simp [htrace, publishCalls, Event.publishCall?]
    have hboot : loadApiKey demoEnviron = .ok (some "key") := by decide
    have hclosed : demoEnviron "STACKMIGRATE_ALLOW_NO_AUTH" ≠ some "1" := by decide
    obtain ⟨_, -, -, honce, _, _, _, repo, -, -, -, -, hne, hname, hbase, -⟩ :=
      publications_are_authorised hboot hclosed hrun hc hcall
    exact ⟨s, c, call, repo, hc, honce, hname, hne, hbase⟩

end Demo

end StackMigrate
