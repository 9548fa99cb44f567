import StackMigrate.Graph.Replay
import StackMigrate.Sandbox.Containers

/-!
# What the containers of the sandbox may do, and what is left of them

Every interleaving of any number of calls is looked at, with a daemon that may fail at any
request. The book of the daemon says which containers there have been; it is compared with
the place that each call has come to.
-/

namespace StackMigrate

open DrivenSystem (Met)

variable {limits : SandboxLimits} {fs : FileSystem} {k : ℕ} {call : SandboxCall}
  {calls : List SandboxCall} {d d' start : Daemon} {answer : DaemonAnswer}
  {place place' : Sandboxing} {stage : SandboxStage} {id : String} {s : SandboxState}
  {moves : List SandboxMove}

/-! ### A small run -/

def demoSandboxCall : SandboxCall := ⟨"/workspace", fastApiTargetAdapter, none⟩

/-- One container from its start to its removal; while the call waits for it, it ends with
exit code 0. -/
def containerMoves (k : ℕ) (id logs : String) : List SandboxMove :=
  [.turn k { id := id }, .meanwhile (.prints id logs), .meanwhile (.exits id (some 0)),
    .turn k {}, .turn k {}, .turn k {}]

/-- Both containers of a call, next to a container of somebody else. -/
def sandboxMoves (k : ℕ) : List SandboxMove :=
  .meanwhile (.creates "other" (stageKwargs {} demoWorkspace demoSandboxCall .install)) ::
    .turn k {} :: (containerMoves k "c1" "installed" ++ containerMoves k "c2" "2 passed")

def Sandboxing.hasPassed : Sandboxing → Bool
  | returned result => result.testResult.outcome = .passed
  | _ => false

theorem Sandboxing.hasPassed_iff {place : Sandboxing} : place.hasPassed = true ↔
    ∃ result, place = .returned result ∧ result.testResult.outcome = .passed := by
  cases place <;> simp [hasPassed]

/-- The run of `sandboxMoves`. -/
theorem exists_demo_run : ∃ s result,
    (sandboxes {} demoWorkspace [demoSandboxCall]).system.Run (beforeSandboxes fun _ => none)
      (sandboxMoves 0) s ∧
    s.place 0 = .returned result ∧ result.testResult.outcome = .passed := by
  have hexec : ((sandboxes {} demoWorkspace [demoSandboxCall]).system.exec (fun _ _ _ => True)
      (beforeSandboxes fun _ => none) (sandboxMoves 0)).any
        (fun s => (s.place 0).hasPassed) = true := by decide +kernel
  obtain ⟨s, hrun, hpassed⟩ := DrivenSystem.exists_runWhere_of_exec hexec
  obtain ⟨result, hplace, hpassed⟩ := Sandboxing.hasPassed_iff.mp hpassed
  exact ⟨s, result, hrun, hplace, hpassed⟩

/-! ### What a call knows about its containers -/

/-- The book has what a call takes for the outcome of its container. -/
def BorneOut (d : Daemon) (k : ℕ) (kwargs : ContainerKwargs) : ContainerRun → Prop
  | .exited logs statusCode _ => ∃ id c, d id = some c ∧ c.owner = some k ∧ c.kwargs = kwargs ∧
      c.condition = .exited statusCode ∧ c.logs = logs
  | .overran => ∃ id c, d id = some c ∧ c.owner = some k ∧ c.kwargs = kwargs ∧
      c.condition = .exited (some 137)
  | .raised _ => True

theorem BorneOut.mono {kwargs : ContainerKwargs} {run : ContainerRun} (hlater : d.Later d')
    (h : BorneOut d k kwargs run) : BorneOut d' k kwargs run := by
  cases run with
  | exited logs statusCode duration =>
    obtain ⟨id, c, hc, howner, hkwargs, hexited, hlogs⟩ := h
    obtain ⟨c', hc', hl⟩ := hlater hc
    obtain ⟨hexited', hlogs'⟩ := hl.exited hexited
    exact ⟨id, c', hc', hl.owner.trans howner, hl.kwargs.trans hkwargs, hexited',
      hlogs'.trans hlogs⟩
  | overran =>
    obtain ⟨id, c, hc, howner, hkwargs, hexited⟩ := h
    obtain ⟨c', hc', hl⟩ := hlater hc
    exact ⟨id, c', hc', hl.owner.trans howner, hl.kwargs.trans hkwargs, (hl.exited hexited).1⟩
  | raised => trivial

/-- `id` is a container of call `k`. -/
def IsOwn (d : Daemon) (k : ℕ) (kwargs : ContainerKwargs) (id : String) : Prop :=
  ∃ c, d id = some c ∧ c.owner = some k ∧ c.kwargs = kwargs

theorem IsOwn.mono {kwargs : ContainerKwargs} (hlater : d.Later d') (h : IsOwn d k kwargs id) :
    IsOwn d' k kwargs id := by
  obtain ⟨c, hc, howner, hkwargs⟩ := h
  obtain ⟨c', hc', hl⟩ := hlater hc
  exact ⟨c', hc', hl.owner.trans howner, hl.kwargs.trans hkwargs⟩

section Outline

variable (limits fs k call)

/-- The tests are only come to behind an installation that has ended with 0. -/
def Installed (d : Daemon) : SandboxStage → Prop
  | .install => True
  | .test installOutput => ∃ logs duration, installOutput = truncate logs ∧
      BorneOut d k (stageKwargs limits fs call .install) (.exited logs (some 0) duration)

/-- What comes of a container of this stage, as `_run_container` has it. -/
def Came (d : Daemon) (stage : SandboxStage) (outcome : Except SandboxError (String × ℤ × ℚ)) :
    Prop :=
  ∃ run, BorneOut d k (stageKwargs limits fs call stage) run ∧
    runContainer (fun _ => run) (stageKwargs limits fs call stage) (stageTimeout limits stage) =
      outcome

/-- `run` returns this with a daemon that answers what the book says. -/
def Answered (d : Daemon) (result : SandboxRunResult) : Prop :=
  ∃ docker : Docker,
    (∀ stage, BorneOut d k (stageKwargs limits fs call stage)
      (docker (stageKwargs limits fs call stage))) ∧
    runSandbox limits docker fs call.workspaceRoot call.adapter call.taskId = .ok result

/-- What holds at each place of a call. -/
def Faithful (d : Daemon) : Sandboxing → Prop
  | .connecting | .raised _ => True
  | .starting stage _ => Installed limits fs k call d stage
  | .waiting stage _ id | .killing stage id =>
    Installed limits fs k call d stage ∧ IsOwn d k (stageKwargs limits fs call stage) id
  | .reading stage _ id statusCode =>
    Installed limits fs k call d stage ∧ ∃ c, d id = some c ∧ c.owner = some k ∧
      c.kwargs = stageKwargs limits fs call stage ∧ c.condition = .exited statusCode
  | .removing stage _ outcome =>
    Installed limits fs k call d stage ∧ Came limits fs k call d stage outcome
  | .returned result => Answered limits fs k call d result

end Outline

theorem Installed.mono (hlater : d.Later d') (h : Installed limits fs k call d stage) :
    Installed limits fs k call d' stage := by
  cases stage with
  | install => trivial
  | test installOutput =>
    obtain ⟨logs, duration, hout, hborne⟩ := h
    exact ⟨logs, duration, hout, hborne.mono hlater⟩

theorem Came.mono {outcome : Except SandboxError (String × ℤ × ℚ)} (hlater : d.Later d')
    (h : Came limits fs k call d stage outcome) : Came limits fs k call d' stage outcome := by
  obtain ⟨run, hborne, houtcome⟩ := h
  exact ⟨run, hborne.mono hlater, houtcome⟩

theorem Answered.mono {result : SandboxRunResult} (hlater : d.Later d')
    (h : Answered limits fs k call d result) : Answered limits fs k call d' result := by
  obtain ⟨docker, hborne, hrun⟩ := h
  exact ⟨docker, fun stage => (hborne stage).mono hlater, hrun⟩

theorem Faithful.mono (hlater : d.Later d') (h : Faithful limits fs k call d place) :
    Faithful limits fs k call d' place := by
  cases place with
  | connecting | raised => trivial
  | starting => exact Installed.mono hlater h
  | waiting | killing => exact ⟨h.1.mono hlater, h.2.mono hlater⟩
  | reading =>
    obtain ⟨hprepared, c, hc, howner, hkwargs, hexited⟩ := h
    obtain ⟨c', hc', hl⟩ := hlater hc
    exact ⟨hprepared.mono hlater, c', hc', hl.owner.trans howner, hl.kwargs.trans hkwargs,
      (hl.exited hexited).1⟩
  | removing => exact ⟨h.1.mono hlater, h.2.mono hlater⟩
  | returned => exact Answered.mono hlater h

/-! ### The outcome of a call -/

/-- The daemon as it turned out for one call. The two containers differ in their network. -/
def dockerOf (install test : ContainerRun) : Docker :=
  fun kwargs => if kwargs.networkDisabled then test else install

theorem dockerOf_install {install test : ContainerRun} :
    dockerOf install test (stageKwargs limits fs call .install) = install := rfl

theorem dockerOf_test {install test : ContainerRun} {installOutput : String} :
    dockerOf install test (stageKwargs limits fs call (.test installOutput)) = test := rfl

theorem runContainer_dockerOf_install {install test : ContainerRun} {timeoutSeconds : ℤ} :
    runContainer (dockerOf install test) (stageKwargs limits fs call .install) timeoutSeconds =
      runContainer (fun _ => install) (stageKwargs limits fs call .install) timeoutSeconds := rfl

theorem runContainer_dockerOf_test {install test : ContainerRun} {timeoutSeconds : ℤ}
    {installOutput : String} :
    runContainer (dockerOf install test) (stageKwargs limits fs call (.test installOutput))
        timeoutSeconds =
      runContainer (fun _ => test) (stageKwargs limits fs call (.test installOutput))
        timeoutSeconds := rfl

theorem exited_of_runContainer {docker : Docker} {kwargs : ContainerKwargs} {timeoutSeconds : ℤ}
    {output : String} {exitCode : ℤ} {duration : ℚ}
    (h : runContainer docker kwargs timeoutSeconds = .ok (output, exitCode, duration)) :
    ∃ logs statusCode, docker kwargs = .exited logs statusCode duration ∧
      output = truncate logs ∧ exitCode = statusCode.getD (-1) := by
  unfold runContainer at h
  split at h
  · next logs statusCode duration hdocker =>
    cases h
    exact ⟨logs, statusCode, hdocker, rfl, rfl⟩
  · cases h
  · cases h

/-- Behind the installation, a call answers as `run` does, or goes on to the tests. -/
theorem faithful_afterInstall {outcome : Except SandboxError (String × ℤ × ℚ)} {now : ℚ}
    (hcame : Came limits fs k call d .install outcome) :
    Faithful limits fs k call d (afterContainer call now .install outcome) := by
  obtain ⟨run, hborne, hrun⟩ := hcame
  have hdocker : ∀ stage, BorneOut d k (stageKwargs limits fs call stage)
      (dockerOf run (.raised (.foreign "")) (stageKwargs limits fs call stage)) := by
    intro stage
    cases stage with
    | install => exact hborne
    | test => trivial
  have hrun' : runContainer (dockerOf run (.raised (.foreign "")))
      (installKwargs limits fs call.workspaceRoot call.adapter) limits.installTimeoutSeconds =
        outcome := runContainer_dockerOf_install.trans hrun
  match outcome, hrun, hrun' with
  | .error (.other exc), _, _ => trivial
  | .error (.timeout message), _, hrun' =>
    exact ⟨_, hdocker, by simp only [runSandbox, hrun']⟩
  | .ok (output, exitCode, duration), hrun, hrun' =>
    simp only [afterContainer]
    split_ifs with hexit
    · exact ⟨_, hdocker, by simp only [runSandbox, hrun', if_pos hexit]⟩
    · obtain ⟨logs, statusCode, rfl, hout, hcode⟩ := exited_of_runContainer hrun
      -- only an entry `StatusCode` that is 0 counts as 0
      have hzero : statusCode = some 0 := by
        cases statusCode with
        | none => simp [hcode] at hexit
        | some code => simpa [hcode] using hexit
      subst hzero
      exact ⟨logs, duration, hout, hborne⟩

/-- Behind the tests, a call answers as `run` does. -/
theorem faithful_afterTest {installOutput : String}
    {outcome : Except SandboxError (String × ℤ × ℚ)} {now : ℚ}
    (hinstalled : Installed limits fs k call d (.test installOutput))
    (hcame : Came limits fs k call d (.test installOutput) outcome) :
    Faithful limits fs k call d (afterContainer call now (.test installOutput) outcome) := by
  obtain ⟨logs, seconds, rfl, hborne₀⟩ := hinstalled
  obtain ⟨run, hborne, hrun⟩ := hcame
  have hdocker : ∀ stage, BorneOut d k (stageKwargs limits fs call stage)
      (dockerOf (.exited logs (some 0) seconds) run (stageKwargs limits fs call stage)) := by
    intro stage
    cases stage with
    | install => exact hborne₀
    | test => exact hborne
  have hinstall : runContainer (dockerOf (.exited logs (some 0) seconds) run)
      (installKwargs limits fs call.workspaceRoot call.adapter) limits.installTimeoutSeconds =
        .ok (truncate logs, 0, seconds) := rfl
  have htest : runContainer (dockerOf (.exited logs (some 0) seconds) run)
      (testKwargs limits fs call.workspaceRoot call.adapter) limits.testTimeoutSeconds =
        outcome := runContainer_dockerOf_test.trans hrun
  have hsandbox : runSandbox limits (dockerOf (.exited logs (some 0) seconds) run) fs
      call.workspaceRoot call.adapter call.taskId =
        runTests limits (dockerOf (.exited logs (some 0) seconds) run) fs call.workspaceRoot
          call.adapter call.taskId (truncate logs) := by
    simp only [runSandbox, hinstall]
    rfl
  match outcome, htest with
  | .error (.other exc), _ => trivial
  | .error (.timeout message), htest =>
    exact ⟨_, hdocker, by simp only [hsandbox, runTests, htest]⟩
  | .ok (output, exitCode, duration), htest =>
    exact ⟨_, hdocker, by simp only [hsandbox, runTests, htest]⟩

/-- Behind `_run_container`, whatever it comes to. -/
theorem faithful_afterContainer {outcome : Except SandboxError (String × ℤ × ℚ)} {now : ℚ}
    (hinstalled : Installed limits fs k call d stage)
    (hcame : Came limits fs k call d stage outcome) :
    Faithful limits fs k call d (afterContainer call now stage outcome) := by
  cases stage with
  | install => exact faithful_afterInstall hcame
  | test => exact faithful_afterTest hinstalled hcame

/-- A container that raises has come to nothing that the book would have. -/
theorem came_other {exc : PyException} : Came limits fs k call d stage (.error (.other exc)) :=
  ⟨.raised exc, trivial, rfl⟩

/-- One turn of a call. -/
theorem faithful_turn (hat : Faithful limits fs k call d place)
    (h : SandboxTurn limits fs k call d answer place d' place') :
    Faithful limits fs k call d' place' := by
  have hlater : d.Later d' := h.entry.later
  cases h with
  | connected | unconnected | notStarted | lost => trivial
  | started hcreate =>
    obtain ⟨-, rfl⟩ := Daemon.create_eq_some hcreate
    exact ⟨Installed.mono hlater hat, _, Daemon.put_self, rfl, rfl⟩
  | exited hfind hexited =>
    obtain ⟨hinstalled, c', hc', howner, hkwargs⟩ := hat
    cases hc'.symm.trans (Daemon.find?_eq_some.mp hfind).1
    exact ⟨hinstalled, _, hc', howner, hkwargs, hexited⟩
  | overran => exact hat
  | @killed stage id _ hkill =>
    obtain ⟨hinstalled, c', hc', howner, hkwargs⟩ := hat
    obtain ⟨c, hfind, hrunning, rfl⟩ := Daemon.kill_eq_some hkill
    cases (Daemon.find?_eq_some.mp hfind).1.symm.trans hc'
    refine ⟨hinstalled.mono hlater, .overran, ⟨id, _, Daemon.put_self, ?_, ?_, ?_⟩, rfl⟩
    · exact (Container.later_halt _).owner.trans howner
    · exact (Container.later_halt _).kwargs.trans hkwargs
    · simp [Container.halt, hrunning]
  | notKilled => exact ⟨hat.1.mono hlater, came_other⟩
  | @read stage start id statusCode c hfind =>
    obtain ⟨hinstalled, c', hc', howner, hkwargs, hexited⟩ := hat
    cases hc'.symm.trans (Daemon.find?_eq_some.mp hfind).1
    have hborne : BorneOut d k (stageKwargs limits fs call stage)
        (.exited c.logs statusCode (answer.now - start)) :=
      ⟨id, c, hc', howner, hkwargs, hexited, rfl⟩
    exact ⟨hinstalled, _, hborne, rfl⟩
  | notRead => exact ⟨hat.1, came_other⟩
  | removed => exact faithful_afterContainer (hat.1.mono hlater) (hat.2.mono hlater)
  | notRemoved => exact faithful_afterContainer hat.1 hat.2

/-- In every interleaving, every call knows what the book says about its containers. -/
theorem outline_sandboxes :
    SharedClients.Outline (sandboxes limits fs calls) (fun _ _ => True) (fun _ => True)
      Daemon.Later fun k d place =>
        ∀ call, calls[k]? = some call → Faithful limits fs k call d place where
  turn := by
    intro k d place answer d' place' _ hat hact
    obtain ⟨call, hk, hturn⟩ := sandboxTurn_of_act hact
    refine ⟨hturn.entry.later, fun call' hk' => ?_⟩
    cases hk.symm.trans hk'
    exact faithful_turn (hat call hk) hturn
  meanwhile := fun _ hmeanwhile => (Daemon.entry_of_change hmeanwhile).later
  stable := fun hlater hat call hk => (hat call hk).mono hlater

theorem faithful_of_run
    (hrun : (sandboxes limits fs calls).system.Run (beforeSandboxes start) moves s)
    (hk : calls[k]? = some call) : Faithful limits fs k call s.shared (s.place k) := by
  have hrun' : (sandboxes limits fs calls).system.RunWhere
      (SharedClients.Within fun _ _ => True) (beforeSandboxes start) moves s :=
    hrun.mono fun _ m _ _ _ => by cases m <;> trivial
  exact outline_sandboxes.at_of_run hrun' (fun _ _ => trivial) (fun _ _ _ => trivial) k call hk

/-- The answer of a call is what `runSandbox` makes of its containers. -/
theorem sandboxes_refine_run {result : SandboxRunResult}
    (hrun : (sandboxes limits fs calls).system.Run (beforeSandboxes start) moves s)
    (hk : calls[k]? = some call) (hplace : s.place k = .returned result) :
    ∃ docker : Docker,
      (∀ stage, BorneOut s.shared k (stageKwargs limits fs call stage)
        (docker (stageKwargs limits fs call stage))) ∧
      runSandbox limits docker fs call.workspaceRoot call.adapter call.taskId = .ok result := by
  have hat := faithful_of_run hrun hk
  rw [hplace] at hat
  exact hat

theorem sandboxes_refine_run_demo : ∃ (s : SandboxState) (result : SandboxRunResult)
    (docker : Docker), s.place 0 = .returned result ∧ result.testResult.outcome = .passed ∧
      (∀ stage, BorneOut s.shared 0 (stageKwargs {} demoWorkspace demoSandboxCall stage)
        (docker (stageKwargs {} demoWorkspace demoSandboxCall stage))) ∧
      runSandbox {} docker demoWorkspace "/workspace" fastApiTargetAdapter none = .ok result := by
  obtain ⟨s, result, hrun, hplace, hpassed⟩ := exists_demo_run
  have hk : [demoSandboxCall][0]? = some demoSandboxCall := rfl
  obtain ⟨docker, hborne, hsandbox⟩ := sandboxes_refine_run hrun hk hplace
  exact ⟨s, result, docker, hplace, hpassed, hborne, hsandbox⟩

/-! ### Which containers there are -/

/-- A container that is there after a turn was there before, or has just been asked for. -/
theorem SandboxTurn.back {c' : Container}
    (h : SandboxTurn limits fs k call d answer place d' place') (hc' : d' id = some c') :
    (∃ c, d id = some c ∧ c.Later c') ∨
      ∃ stage start, place = .starting stage start ∧ answer.id = id ∧
        c' = containerFor limits fs k call stage answer ∧
        (place' = .waiting stage start id ∨ answer.weather ≠ .fair) := by
  have hcreated : ∀ {c}, d.create answer.id c = some d' →
      (∃ c, d id = some c ∧ c.Later c') ∨ (answer.id = id ∧ c' = c) := by
    intro c hcreate
    obtain ⟨-, rfl⟩ := Daemon.create_eq_some hcreate
    by_cases hid : id = answer.id
    · subst hid
      exact Or.inr ⟨rfl, Option.some.inj (hc'.symm.trans Daemon.put_self)⟩
    · exact Or.inl ⟨c', (Daemon.put_of_ne hid).symm.trans hc', .refl c'⟩
  cases h with
  | connected | unconnected | notStarted | exited | overran | read | notRead | notRemoved =>
    exact Or.inl ⟨c', hc', .refl c'⟩
  | @started stage start _ hcreate =>
    rcases hcreated hcreate with hbefore | ⟨rfl, rfl⟩
    · exact Or.inl hbefore
    · exact Or.inr ⟨stage, start, rfl, rfl, rfl, Or.inl rfl⟩
  | @lost stage start _ hweather hcreate =>
    rcases hcreated hcreate with hbefore | ⟨rfl, rfl⟩
    · exact Or.inl hbefore
    · exact Or.inr ⟨stage, start, rfl, rfl, rfl, Or.inr hweather⟩
  | killed hkill => exact Or.inl (Daemon.back_of_kill hkill hc')
  | notKilled hkill =>
    rcases hkill with rfl | hkill
    · exact Or.inl ⟨c', hc', .refl c'⟩
    · exact Or.inl (Daemon.back_of_kill hkill hc')
  | removed hremove => exact Or.inl (Daemon.back_of_remove hremove hc')

/-- The containers of call `k` are those that `run` asks for, in that order. -/
def Asked (limits : SandboxLimits) (fs : FileSystem) (calls : List SandboxCall) (k : ℕ)
    (d : Daemon) : Prop :=
  ∀ ⦃id c⦄, d id = some c → c.owner = some k → ∃ call stage, calls[k]? = some call ∧
    c.kwargs = stageKwargs limits fs call stage ∧ Installed limits fs k call d stage

theorem Asked.later (h : Asked limits fs calls k d) (hlater : d.Later d') {c c' : Container}
    (hc : d id = some c) (hcc' : c.Later c') (howner : c'.owner = some k) :
    ∃ call stage, calls[k]? = some call ∧ c'.kwargs = stageKwargs limits fs call stage ∧
      Installed limits fs k call d' stage := by
  obtain ⟨call, stage, hk, hkwargs, hinstalled⟩ := h hc (hcc'.owner.symm.trans howner)
  exact ⟨call, stage, hk, hcc'.kwargs.trans hkwargs, hinstalled.mono hlater⟩

theorem not_owned_beforeSandboxes {c : Container}
    (hc : (beforeSandboxes start).shared id = some c) : c.owner = none := by
  obtain ⟨c₀, -, rfl⟩ := Option.map_eq_some_iff.mp hc
  rfl

theorem asked_of_run
    (hrun : (sandboxes limits fs calls).system.Run (beforeSandboxes start) moves s) (k : ℕ) :
    Asked limits fs calls k s.shared := by
  refine hrun.invariant_under
    (I := fun s => ∀ k call, calls[k]? = some call → Faithful limits fs k call s.shared (s.place k))
    (J := fun s => Asked limits fs calls k s.shared)
    (fun hrun k call hk => faithful_of_run hrun.run hk) ?_ ?_
  · intro id c hc howner
    cases (not_owned_beforeSandboxes hc).symm.trans howner
  · intro s m s' hfaithful hasked hstep _ id c hc howner
    cases SharedClients.moved_of_step hstep with
    | @turn n answer d' place' hact =>
      obtain ⟨call, hn, hturn⟩ := sandboxTurn_of_act hact
      rcases hturn.back hc with ⟨c₀, hc₀, hlater⟩ | ⟨stage, start, hplace, -, rfl, -⟩
      · exact hasked.later hturn.entry.later hc₀ hlater howner
      · cases howner
        have hat := hfaithful k call hn
        rw [hplace] at hat
        exact ⟨call, stage, hn, rfl, Installed.mono hturn.entry.later hat⟩
    | meanwhile hmeanwhile =>
      have hentry := Daemon.entry_of_change hmeanwhile
      rcases hentry.back hc with ⟨c₀, hc₀, hlater⟩ | ⟨-, hnone⟩
      · exact hasked.later hentry.later hc₀ hlater howner
      · cases hnone.symm.trans howner

/-- What the sandbox promises about a container that runs untrusted code. -/
structure Hardened (limits : SandboxLimits) (root : String) (kwargs : ContainerKwargs) : Prop where
  user : kwargs.user = "1000:1000"
  capabilities : kwargs.capDrop = ["ALL"]
  privileges : kwargs.securityOpt = ["no-new-privileges"]
  rootfs : kwargs.readOnly = true
  memory : kwargs.memLimit = limits.memoryLimit
  cpus : kwargs.nanoCpus = limits.nanoCpus
  pids : kwargs.pidsLimit = limits.pidsLimit
  mounts : ∀ v ∈ kwargs.volumes, v.host = root ∧ v.bind = "/workspace"

theorem hardened_stageKwargs : Hardened limits (fs.realpath call.workspaceRoot).toPath
    (stageKwargs limits fs call stage) := by
  cases stage <;> exact ⟨rfl, rfl, rfl, rfl, rfl, rfl, rfl, by simp [stageKwargs, installKwargs,
    testKwargs, buildContainerKwargs]⟩

/-- Whatever runs in the containers of a call runs hardened and sees only its workspace. It has a
network only to install, and the tests are started behind an installation that has ended with 0. -/
theorem containers_are_confined {c : Container}
    (hrun : (sandboxes limits fs calls).system.Run (beforeSandboxes start) moves s)
    (hc : s.shared id = some c) (howner : c.owner = some k) :
    ∃ call, calls[k]? = some call ∧
      Hardened limits (fs.realpath call.workspaceRoot).toPath c.kwargs ∧
      ((c.kwargs.networkDisabled = false ∧ c.kwargs.command = call.adapter.installCommand) ∨
        (c.kwargs.networkDisabled = true ∧ c.kwargs.command = call.adapter.testCommand ∧
          ∃ id₁ c₁, s.shared id₁ = some c₁ ∧ c₁.owner = some k ∧
            c₁.kwargs = installKwargs limits fs call.workspaceRoot call.adapter ∧
            c₁.condition = .exited (some 0))) := by
  obtain ⟨call, stage, hk, hkwargs, hinstalled⟩ := asked_of_run hrun k hc howner
  refine ⟨call, hk, hkwargs ▸ hardened_stageKwargs, ?_⟩
  cases stage with
  | install => exact Or.inl ⟨by rw [hkwargs]; rfl, by rw [hkwargs]; rfl⟩
  | test installOutput =>
    obtain ⟨logs, duration, -, id₁, c₁, hc₁, howner₁, hkwargs₁, hexited, -⟩ := hinstalled
    exact Or.inr ⟨by rw [hkwargs]; rfl, by rw [hkwargs]; rfl, id₁, c₁, hc₁, howner₁, hkwargs₁,
      hexited⟩

theorem containers_are_confined_demo : ∃ (s : SandboxState) (c : Container),
    s.shared "c2" = some c ∧ c.kwargs.networkDisabled = true ∧
    Hardened {} (demoWorkspace.realpath "/workspace").toPath c.kwargs := by
  have hexec : ((sandboxes {} demoWorkspace [demoSandboxCall]).system.exec (fun _ _ _ => True)
      (beforeSandboxes fun _ => none) ((sandboxMoves 0).take 9)).any
        (fun s => (s.shared "c2").any fun c => c.owner = some 0 && c.kwargs.networkDisabled) =
          true := by decide +kernel
  obtain ⟨s, hrun, hany⟩ := DrivenSystem.exists_runWhere_of_exec hexec
  cases hc : s.shared "c2" with
  | none => simp [hc] at hany
  | some c =>
    obtain ⟨howner, hnetwork⟩ : c.owner = some 0 ∧ c.kwargs.networkDisabled = true := by
      simpa [hc] using hany
    obtain ⟨call, hk, hhardened, -⟩ := containers_are_confined hrun hc howner
    cases hk
    exact ⟨s, c, hc, hnetwork, hhardened⟩

/-! ### What is left of them -/

/-- The container that a call has to clear away. -/
def Sandboxing.inHand : Sandboxing → Option String
  | waiting _ _ id | killing _ id | reading _ _ id _ | removing _ id _ => some id
  | connecting | starting _ _ | returned _ | raised _ => none

/-- The requests that are left to a call. -/
def Sandboxing.rank : Sandboxing → ℕ
  | connecting => 9
  | starting stage _ => stageRank stage + 4
  | waiting stage _ _ => stageRank stage + 3
  | killing stage _ | reading stage _ _ _ => stageRank stage + 2
  | removing stage _ _ => stageRank stage + 1
  | returned _ | raised _ => 0
where
  stageRank : SandboxStage → ℕ
    | .install => 4
    | .test _ => 0

theorem rank_afterContainer {outcome : Except SandboxError (String × ℤ × ℚ)} {now : ℚ} :
    (afterContainer call now stage outcome).rank < (Sandboxing.removing stage id outcome).rank := by
  unfold afterContainer
  split
  · exact Nat.succ_pos _
  · exact Nat.succ_pos _
  · split_ifs
    · exact Nat.succ_pos _
    · exact Nat.lt_succ_self 4
  · exact Nat.succ_pos _
  · exact Nat.succ_pos _

theorem SandboxTurn.rank_lt (h : SandboxTurn limits fs k call d answer place d' place') :
    place'.rank < place.rank := by
  cases h with
  | connected => exact Nat.lt_succ_self 8
  | unconnected | notStarted | lost => exact Nat.succ_pos _
  | started | exited | overran | killed | notKilled | read | notRead => exact Nat.lt_succ_self _
  | removed | notRemoved => exact rank_afterContainer

/-- The daemon fails call `k` on a container: it starts it without saying so, or does not carry
out its removal. -/
inductive Fails (k : ℕ) (id : String) (s : SandboxState) : SandboxMove → SandboxState → Prop
  | run {stage start answer s'} (hplace : s.place k = .starting stage start) (hid : answer.id = id)
      (hweather : answer.weather ≠ .fair) : Fails k id s (.turn k answer) s'
  | remove {stage outcome answer s'} (hplace : s.place k = .removing stage id outcome)
      (hweather : answer.weather ≠ .fair) : Fails k id s (.turn k answer) s'

/-- A call keeps its container in hand until it has been removed, or its removal has failed. -/
theorem SandboxTurn.inHand {c' : Container}
    (h : SandboxTurn limits fs k call d answer place d' place') (hhand : place.inHand = some id)
    (hc' : d' id = some c') (hpresent : c'.removed = false) :
    place'.inHand = some id ∨
      ∃ stage outcome, place = .removing stage id outcome ∧ answer.weather ≠ .fair := by
  cases h with
  | connected | unconnected | started | notStarted | lost => cases hhand
  | exited | overran | killed | notKilled | read | notRead => exact Or.inl hhand
  | removed hremove =>
    obtain rfl := Option.some.inj hhand
    obtain ⟨c, -, rfl⟩ := Daemon.remove_eq_some hremove
    cases Daemon.put_self.symm.trans hc'
    cases hpresent
  | @notRemoved stage id' outcome hwhy =>
    obtain rfl := Option.some.inj hhand
    rcases hwhy with hnone | hweather
    · have hfind : d.find? id' = some c' := Daemon.find?_eq_some.mpr ⟨hc', hpresent⟩
      simp [Daemon.remove, hfind] at hnone
    · exact Or.inr ⟨stage, outcome, rfl, hweather⟩

/-- Where a container of call `k` that is still there can be. -/
def InHand (k : ℕ) (id : String) (s : SandboxState) : Prop :=
  ∀ ⦃c⦄, s.shared id = some c → c.owner = some k → c.removed = false →
    (s.place k).inHand = some id

/-- A container that was there and is still there is where it was. -/
theorem InHand.back {c c' : Container} (h : InHand k id s) (hc : s.shared id = some c)
    (hlater : c.Later c') (howner : c'.owner = some k) (hpresent : c'.removed = false) :
    (s.place k).inHand = some id := by
  refine h hc (hlater.owner.symm.trans howner) ?_
  cases hremoved : c.removed with
  | false => rfl
  | true => cases (hlater.removed hremoved).symm.trans hpresent

theorem inHand_step {s' : SandboxState} {m : SandboxMove} (h : InHand k id s)
    (hstep : (sandboxes limits fs calls).system.step s m = some s') :
    InHand k id s' ∨ Fails k id s m s' := by
  by_cases hfails : Fails k id s m s'
  · exact Or.inr hfails
  refine Or.inl fun c' hc' howner hpresent => ?_
  cases SharedClients.moved_of_step hstep with
  | @turn n answer d' place' hact =>
    obtain ⟨call, -, hturn⟩ := sandboxTurn_of_act hact
    by_cases hn : n = k
    · subst hn
      simp only [Function.update_self]
      rcases hturn.back hc' with ⟨c, hc, hlater⟩ | ⟨stage, start, hplace, hid, -, hnext⟩
      · have hhand := h.back hc hlater howner hpresent
        rcases hturn.inHand hhand hc' hpresent with hhand' | ⟨stage, outcome, hplace, hweather⟩
        · exact hhand'
        · exact absurd (.remove hplace hweather) hfails
      · rcases hnext with rfl | hweather
        · rfl
        · exact absurd (.run hplace hid hweather) hfails
    · simp only [Function.update_of_ne (Ne.symm hn)]
      rcases hturn.back hc' with ⟨c, hc, hlater⟩ | ⟨stage, start, -, -, rfl, -⟩
      · exact h.back hc hlater howner hpresent
      · exact absurd (Option.some.inj howner) hn
  | meanwhile hmeanwhile =>
    rcases (Daemon.entry_of_change hmeanwhile).back hc' with ⟨c, hc, hlater⟩ | ⟨-, hnone⟩
    · exact h.back hc hlater howner hpresent
    · cases hnone.symm.trans howner

/-- A call is over after nine requests. At any time, and so at its end, it has left no container
behind but those that the daemon has failed it on. -/
theorem containers_are_removed
    (hrun : (sandboxes limits fs calls).system.Run (beforeSandboxes start) moves s) (k : ℕ) :
    moves.countP (SharedClients.Move.isTurnOf k) ≤ 9 ∧
      ∀ id c, s.shared id = some c → c.owner = some k → c.removed = false →
        (s.place k).inHand = some id ∨
          (sandboxes limits fs calls).system.Met (fun _ _ _ => True) (beforeSandboxes start) moves
            (Fails k id) := by
  refine ⟨?_, fun id c hc howner hpresent => ?_⟩
  · have hle := SharedClients.turns_le (k := k) Sandboxing.rank (fun hact => by
      obtain ⟨call, -, hturn⟩ := sandboxTurn_of_act hact
      exact hturn.rank_lt) hrun
    exact Nat.le_trans (Nat.le_add_right _ _) hle
  · have hstart : InHand k id (beforeSandboxes start) := by
      intro c hc howner
      cases (not_owned_beforeSandboxes hc).symm.trans howner
    rcases hrun.invariant_or_met hstart fun _ _ _ h hstep _ => inHand_step h hstep with hhand | hmet
    · exact Or.inl (hhand hc howner hpresent)
    · exact Or.inr hmet

theorem containers_are_removed_demo : ∃ s : SandboxState,
    (∃ result, s.place 0 = .returned result) ∧
    (sandboxMoves 0).countP (SharedClients.Move.isTurnOf 0) ≤ 9 ∧
    ∀ id c, s.shared id = some c → c.owner = some 0 → c.removed = false →
      (s.place 0).inHand = some id ∨
        (sandboxes {} demoWorkspace [demoSandboxCall]).system.Met (fun _ _ _ => True)
          (beforeSandboxes fun _ => none) (sandboxMoves 0) (Fails 0 id) := by
  obtain ⟨s, result, hrun, hplace, -⟩ := exists_demo_run
  exact ⟨s, ⟨result, hplace⟩, containers_are_removed hrun 0⟩

/-! ### The verdict -/

/-- The ways `run` returns. -/
inductive RunReturned (limits : SandboxLimits) (docker : Docker) (fs : FileSystem)
    (call : SandboxCall) (result : SandboxRunResult) : Prop
  | overran {stage : SandboxStage} (hoverran : docker (stageKwargs limits fs call stage) = .overran)
      (houtcome : result.testResult.outcome = .timeout)
  | setupFailed (houtcome : result.testResult.outcome = .error)
  | tested {setup logs : String} {statusCode : Option ℤ} {setupSeconds seconds : ℚ}
      (hinstall : docker (stageKwargs limits fs call .install) =
        .exited setup (some 0) setupSeconds)
      (htest : docker (stageKwargs limits fs call (.test (truncate setup))) =
        .exited logs statusCode seconds)
      (hsetup : result.setupOutput = truncate setup)
      (houtput : result.testResult.rawOutput = truncate logs)
      (hparsed : (result.testResult.outcome, result.testResult.failingTests) =
        call.adapter.parseTestOutput (truncate logs) (statusCode.getD (-1)))

theorem overran_of_runContainer {docker : Docker} {kwargs : ContainerKwargs} {timeoutSeconds : ℤ}
    {message : String} (h : runContainer docker kwargs timeoutSeconds = .error (.timeout message)) :
    docker kwargs = .overran := by
  unfold runContainer at h
  split at h
  · cases h
  · next hdocker => exact hdocker
  · cases h

theorem runReturned_of_runTests {docker : Docker} {result : SandboxRunResult} {setup : String}
    {setupSeconds : ℚ}
    (hinstall : docker (stageKwargs limits fs call .install) = .exited setup (some 0) setupSeconds)
    (h : runTests limits docker fs call.workspaceRoot call.adapter call.taskId (truncate setup) =
      .ok result) : RunReturned limits docker fs call result := by
  unfold runTests at h
  split at h
  · cases h
  · next htimeout =>
    cases h
    have hoverran : docker (stageKwargs limits fs call (.test (truncate setup))) = .overran :=
      overran_of_runContainer htimeout
    exact .overran hoverran rfl
  · next testOutput testExit testDuration hended =>
    obtain ⟨logs, statusCode, hdocker, rfl, rfl⟩ := exited_of_runContainer hended
    cases h
    exact .tested hinstall hdocker rfl rfl rfl

theorem runReturned_of_runSandbox {docker : Docker} {result : SandboxRunResult}
    (h : runSandbox limits docker fs call.workspaceRoot call.adapter call.taskId = .ok result) :
    RunReturned limits docker fs call result := by
  unfold runSandbox at h
  split at h
  · cases h
  · next htimeout =>
    cases h
    have hoverran : docker (stageKwargs limits fs call .install) = .overran :=
      overran_of_runContainer htimeout
    exact .overran hoverran rfl
  · next installOutput installExit installDuration hended =>
    obtain ⟨setup, statusCode, hdocker, rfl, rfl⟩ := exited_of_runContainer hended
    split_ifs at h with hexit
    · cases h
      exact .setupFailed rfl
    · cases statusCode with
      | none => exact absurd (by decide) hexit
      | some code =>
        obtain rfl : code = 0 := by simpa using hexit
        exact runReturned_of_runTests hdocker h

theorem parseTestOutput_passed {stdout : String} {exitCode : ℤ} {failing : List String}
    (h : (TestOutcome.passed, failing) = parseTestOutput stdout exitCode) :
    exitCode = 0 ∧ failing = [] := by
  unfold parseTestOutput at h
  split_ifs at h with hzero
  · exact ⟨hzero, (Prod.mk.inj h).2⟩
  all_goals cases (Prod.mk.inj h).1

theorem parseTestOutput_ne_timeout {stdout : String} {exitCode : ℤ} {failing : List String} :
    (TestOutcome.timeout, failing) ≠ parseTestOutput stdout exitCode := by
  intro h
  unfold parseTestOutput at h
  split_ifs at h <;> cases (Prod.mk.inj h).1

/-- A call passes only if its dependencies were installed with exit code 0 and then, in another
container and without a network, its tests ended with exit code 0. It times out only if one of
its containers was killed. -/
theorem verdicts_are_earned {result : SandboxRunResult}
    (hrun : (sandboxes limits fs calls).system.Run (beforeSandboxes start) moves s)
    (hk : calls[k]? = some call) (hadapter : call.adapter = fastApiTargetAdapter)
    (hplace : s.place k = .returned result) :
    (result.testResult.outcome = .passed → ∃ setup logs setupSeconds seconds,
        BorneOut s.shared k (installKwargs limits fs call.workspaceRoot call.adapter)
          (.exited setup (some 0) setupSeconds) ∧
        BorneOut s.shared k (testKwargs limits fs call.workspaceRoot call.adapter)
          (.exited logs (some 0) seconds) ∧
        result.setupOutput = truncate setup ∧ result.testResult.rawOutput = truncate logs ∧
        result.testResult.failingTests = []) ∧
      (result.testResult.outcome = .timeout →
        ∃ stage, BorneOut s.shared k (stageKwargs limits fs call stage) .overran) := by
  have hat := faithful_of_run hrun hk
  rw [hplace] at hat
  obtain ⟨docker, hborne, hsandbox⟩ := hat
  cases runReturned_of_runSandbox hsandbox with
  | overran hoverran houtcome =>
    exact ⟨by simp [houtcome], fun _ => ⟨_, hoverran ▸ hborne _⟩⟩
  | setupFailed houtcome => exact ⟨by simp [houtcome], by simp [houtcome]⟩
  | @tested setup logs statusCode setupSeconds seconds hinstall htest hsetup houtput hparsed =>
    rw [hadapter] at hparsed
    have hborneInstall := hborne .install
    have hborneTest := hborne (.test (truncate setup))
    rw [hinstall] at hborneInstall
    rw [htest] at hborneTest
    refine ⟨fun hpassed => ?_, fun htimeout => ?_⟩
    · rw [hpassed] at hparsed
      obtain ⟨hzero, hfailing⟩ := parseTestOutput_passed hparsed
      obtain rfl : statusCode = some 0 := by
        cases statusCode with
        | none => cases hzero
        | some code => exact congrArg some hzero
      exact ⟨setup, logs, setupSeconds, seconds, hborneInstall, hborneTest, hsetup, houtput,
        hfailing⟩
    · rw [htimeout] at hparsed
      exact absurd hparsed parseTestOutput_ne_timeout

theorem verdicts_are_earned_demo : ∃ (s : SandboxState) (logs : String) (seconds : ℚ),
    BorneOut s.shared 0 (testKwargs {} demoWorkspace "/workspace" fastApiTargetAdapter)
      (.exited logs (some 0) seconds) := by
  obtain ⟨s, result, hrun, hplace, hpassed⟩ := exists_demo_run
  have hk : [demoSandboxCall][0]? = some demoSandboxCall := rfl
  obtain ⟨hearned, -⟩ := verdicts_are_earned hrun hk rfl hplace
  obtain ⟨setup, logs, -, seconds, -, htest, -⟩ := hearned hpassed
  exact ⟨s, logs, seconds, htest⟩

end StackMigrate
