import StackMigrate.Library.SharedClients
import StackMigrate.Sandbox.DockerRunner

/-!
# The containers of the sandbox

`DockerSandboxRunner.run` as a sequence of requests to the Docker daemon, any of which may
fail, also after the daemon has done what it was asked for. Several calls and everybody else
use the same daemon at the same time. The daemon's book keeps the containers that have been
removed.
-/

namespace StackMigrate

open SharedClients (Weather request Requested requested)

/-! ### The daemon -/

inductive ContainerCondition
  | created
  | running
  /-- With the entry `StatusCode` of what `wait` returns. -/
  | exited (statusCode : Option ℤ)
  deriving DecidableEq, Repr

structure Container where
  kwargs : ContainerKwargs
  /-- The call that asked for it, if it was one of ours. -/
  owner : Option ℕ
  condition : ContainerCondition
  /-- What it has printed, decoded. -/
  logs : String := ""
  removed : Bool := false

/-- A running container ends by `SIGKILL`. -/
def Container.halt (c : Container) : Container :=
  match c.condition with
  | .running => { c with condition := .exited (some 137) }
  | .created | .exited _ => c

/-- The book of the Docker daemon. -/
abbrev Daemon := String → Option Container

namespace Daemon

/-- The container that a request for this id finds. -/
def find? (d : Daemon) (id : String) : Option Container :=
  (d id).filter fun c => !c.removed

def put (d : Daemon) (id : String) (c : Container) : Daemon :=
  Function.update d id (some c)

/-- Ids are never given twice. -/
def create (d : Daemon) (id : String) (c : Container) : Option Daemon :=
  if (d id).isNone then some (d.put id c) else none

/-- `container.kill()`. -/
def kill (d : Daemon) (id : String) : Option Daemon :=
  (d.find? id).bind fun c => if c.condition = .running then some (d.put id c.halt) else none

/-- `container.remove(force=True)`. -/
def remove (d : Daemon) (id : String) : Option Daemon :=
  (d.find? id).map fun c => d.put id { c.halt with removed := true }

end Daemon

/-- What containers do by themselves, and what other people do to the daemon. -/
inductive DaemonChange
  | prints (id text : String)
  | exits (id : String) (statusCode : Option ℤ)
  | removes (id : String)
  | creates (id : String) (kwargs : ContainerKwargs)

def Daemon.change (d : Daemon) : DaemonChange → Option Daemon
  | .prints id text =>
    (d.find? id).bind fun c =>
      if c.condition = .running then some (d.put id { c with logs := c.logs ++ text }) else none
  | .exits id statusCode =>
    (d.find? id).bind fun c =>
      if c.condition = .running then some (d.put id { c with condition := .exited statusCode })
      else none
  | .removes id => d.remove id
  | .creates id kwargs => d.create id { kwargs := kwargs, owner := none, condition := .running }

/-! ### The calls -/

/-- The arguments of one call of `run`. -/
structure SandboxCall where
  workspaceRoot : String
  adapter : TargetTestAdapter
  taskId : Option String

/-- The container of `run` that a call is busy with. -/
inductive SandboxStage
  | install
  | test (installOutput : String)
  deriving DecidableEq, Repr

def stageKwargs (limits : SandboxLimits) (fs : FileSystem) (call : SandboxCall) :
    SandboxStage → ContainerKwargs
  | .install => installKwargs limits fs call.workspaceRoot call.adapter
  | .test _ => testKwargs limits fs call.workspaceRoot call.adapter

def stageTimeout (limits : SandboxLimits) : SandboxStage → ℤ
  | .install => limits.installTimeoutSeconds
  | .test _ => limits.testTimeoutSeconds

/-- How far one call of `run` has come, with its local variables. -/
inductive Sandboxing
  | connecting
  | starting (stage : SandboxStage) (start : ℚ)
  | waiting (stage : SandboxStage) (start : ℚ) (id : String)
  | killing (stage : SandboxStage) (id : String)
  | reading (stage : SandboxStage) (start : ℚ) (id : String) (statusCode : Option ℤ)
  /-- The `finally` clause, with what `_run_container` returns or raises behind it. -/
  | removing (stage : SandboxStage) (id : String)
      (outcome : Except SandboxError (String × ℤ × ℚ))
  | returned (result : SandboxRunResult)
  | raised (exc : PyException)

/-- What comes of a request, besides what it does to the daemon. -/
structure DaemonAnswer where
  weather : Weather := .fair
  /-- The id of the container that is created. -/
  id : String := ""
  /-- Whether a container whose `run` fails has been started. -/
  started : Bool := true
  /-- `time.monotonic()` behind the request. -/
  now : ℚ := 0
  /-- The exception, if it comes to that. -/
  exc : PyException := .foreign ""

/-- `run` behind `_run_container`. -/
def afterContainer (call : SandboxCall) (now : ℚ) (stage : SandboxStage)
    (outcome : Except SandboxError (String × ℤ × ℚ)) : Sandboxing :=
  match stage, outcome with
  | _, .error (.other exc) => .raised exc
  | .install, .error (.timeout message) =>
    .returned
      { testResult := { taskId := call.taskId, outcome := .timeout, rawOutput := message }
        setupOutput := ""
        setupSucceeded := false }
  | .install, .ok (installOutput, installExit, installDuration) =>
    if installExit ≠ 0 then
      .returned
        { testResult :=
            { taskId := call.taskId
              outcome := .error
              rawOutput := installOutput
              durationSeconds := installDuration }
          setupOutput := installOutput
          setupSucceeded := false }
    else .starting (.test installOutput) now
  | .test installOutput, .error (.timeout message) =>
    .returned
      { testResult := { taskId := call.taskId, outcome := .timeout, rawOutput := message }
        setupOutput := installOutput
        setupSucceeded := true }
  | .test installOutput, .ok (testOutput, testExit, testDuration) =>
    let parsed := call.adapter.parseTestOutput testOutput testExit
    .returned
      { testResult :=
          { taskId := call.taskId
            outcome := parsed.1
            rawOutput := testOutput
            failingTests := parsed.2
            durationSeconds := testDuration }
        setupOutput := installOutput
        setupSucceeded := true }

def timeoutMessage (timeoutSeconds : ℤ) : String :=
  "Sandbox container exceeded " ++ toString timeoutSeconds ++ "s timeout"

/-- The container that `containers.run` makes for call `k`. It is not left running when its
start has failed. -/
def containerFor (limits : SandboxLimits) (fs : FileSystem) (k : ℕ) (call : SandboxCall)
    (stage : SandboxStage) (answer : DaemonAnswer) : Container where
  kwargs := stageKwargs limits fs call stage
  owner := some k
  condition := if answer.weather = .fair ∨ answer.started then .running else .created

/-- One turn of `run`, up to the answer to the next request. -/
def sandboxTurn (limits : SandboxLimits) (fs : FileSystem) (k : ℕ) (call : SandboxCall)
    (d : Daemon) (answer : DaemonAnswer) : Sandboxing → Option (Daemon × Sandboxing)
  | .connecting =>
    if answer.weather = .fair then some (d, .starting .install answer.now)
    else some (d, .raised answer.exc)
  | .starting stage start =>
    some (request
      (fun d => (d.create answer.id (containerFor limits fs k call stage answer)).map fun d =>
        (d, .waiting stage start answer.id))
      answer.weather (.raised answer.exc) d)
  | .waiting stage start id =>
    match answer.weather, d.find? id with
    | .fair, some c =>
      match c.condition with
      | .exited statusCode => some (d, .reading stage start id statusCode)
      -- `wait` does not return yet
      | .created | .running => none
    | _, _ => some (d, .killing stage id)
  | .killing stage id =>
    some (request
      (fun d => (d.kill id).map fun d =>
        (d, .removing stage id (.error (.timeout (timeoutMessage (stageTimeout limits stage))))))
      answer.weather (.removing stage id (.error (.other answer.exc))) d)
  | .reading stage start id statusCode =>
    some (request
      (fun d => (d.find? id).map fun c =>
        (d, .removing stage id
          (.ok (truncate c.logs, statusCode.getD (-1), answer.now - start))))
      answer.weather (.removing stage id (.error (.other answer.exc))) d)
  | .removing stage id outcome =>
    -- whatever the daemon says to this is swallowed
    let next := afterContainer call answer.now stage outcome
    some (request (fun d => (d.remove id).map fun d => (d, next)) answer.weather next d)
  | .returned _ | .raised _ => none

/-- Any number of calls with the same limits. The workspaces are where `fs` has them. -/
def sandboxes (limits : SandboxLimits) (fs : FileSystem) (calls : List SandboxCall) :
    SharedClients Daemon Sandboxing DaemonAnswer DaemonChange where
  act k d place answer :=
    calls[k]?.bind fun call => sandboxTurn limits fs k call d answer place
  meanwhile d change := d.change change

/-- The daemon, and how far each call has come. -/
abbrev SandboxState := SharedClients.State Daemon Sandboxing

abbrev SandboxMove := SharedClients.Move DaemonAnswer DaemonChange

/-- Nobody has begun: whatever containers there are belong to others. -/
def beforeSandboxes (d : Daemon) : SandboxState :=
  ⟨fun id => (d id).map fun c => { c with owner := none }, fun _ => .connecting⟩

/-! ### The book of the daemon -/

namespace Daemon

variable {d d' : Daemon} {id : String} {c : Container}

theorem find?_eq_some : d.find? id = some c ↔ d id = some c ∧ c.removed = false := by
  simp [find?, Option.filter_eq_some_iff]

@[simp] theorem put_self : d.put id c id = some c := Function.update_self ..

theorem put_of_ne {other : String} (h : other ≠ id) : d.put id c other = d other :=
  Function.update_of_ne h ..

theorem create_eq_some (h : d.create id c = some d') : d id = none ∧ d' = d.put id c := by
  unfold create at h
  split_ifs at h with hfree
  cases h
  exact ⟨Option.isNone_iff_eq_none.mp hfree, rfl⟩

theorem kill_eq_some (h : d.kill id = some d') : ∃ c, d.find? id = some c ∧
    c.condition = .running ∧ d' = d.put id c.halt := by
  obtain ⟨c, hc, h⟩ := Option.bind_eq_some_iff.mp h
  split_ifs at h with hrunning
  cases h
  exact ⟨c, hc, hrunning, rfl⟩

theorem remove_eq_some (h : d.remove id = some d') : ∃ c, d.find? id = some c ∧
    d' = d.put id { c.halt with removed := true } := by
  obtain ⟨c, hc, rfl⟩ := Option.map_eq_some_iff.mp h
  exact ⟨c, hc, rfl⟩

end Daemon

/-- What never changes about a container, and what never changes again. -/
structure Container.Later (c c' : Container) : Prop where
  kwargs : c'.kwargs = c.kwargs
  owner : c'.owner = c.owner
  exited : ∀ {statusCode}, c.condition = .exited statusCode →
    c'.condition = .exited statusCode ∧ c'.logs = c.logs
  removed : c.removed = true → c'.removed = true

theorem Container.Later.refl (c : Container) : c.Later c :=
  ⟨rfl, rfl, fun h => ⟨h, rfl⟩, fun h => h⟩

theorem Container.Later.trans {c c' c'' : Container} (h : c.Later c') (h' : c'.Later c'') :
    c.Later c'' where
  kwargs := h'.kwargs.trans h.kwargs
  owner := h'.owner.trans h.owner
  exited := by
    intro statusCode hexited
    obtain ⟨hexited', hlogs⟩ := h.exited hexited
    obtain ⟨hexited'', hlogs'⟩ := h'.exited hexited'
    exact ⟨hexited'', hlogs'.trans hlogs⟩
  removed := fun hremoved => h'.removed (h.removed hremoved)

/-- What can be done to the book: a container is entered, or one goes on. -/
inductive Daemon.Entry (owner : Option ℕ) (d : Daemon) : Daemon → Prop
  | none : Entry owner d d
  | created {id c} (hfree : d id = .none) (howner : c.owner = owner) : Entry owner d (d.put id c)
  | changed {id c c'} (hc : d id = some c) (hlater : c.Later c') : Entry owner d (d.put id c')

theorem Container.later_halt (c : Container) : c.Later c.halt := by
  unfold halt
  split
  · next hrunning => exact ⟨rfl, rfl, by simp [hrunning], fun h => h⟩
  · exact .refl c
  · exact .refl c

theorem Container.later_removed (c : Container) : c.Later { c.halt with removed := true } :=
  c.later_halt.trans ⟨rfl, rfl, fun h => ⟨h, rfl⟩, fun _ => rfl⟩

namespace Daemon

variable {d d' d'' : Daemon} {id : String}

theorem entry_of_kill (owner : Option ℕ) (h : d.kill id = some d') : d.Entry owner d' := by
  obtain ⟨c, hfind, -, rfl⟩ := kill_eq_some h
  exact .changed (find?_eq_some.mp hfind).1 c.later_halt

theorem entry_of_remove (owner : Option ℕ) (h : d.remove id = some d') : d.Entry owner d' := by
  obtain ⟨c, hfind, rfl⟩ := remove_eq_some h
  exact .changed (find?_eq_some.mp hfind).1 c.later_removed

theorem entry_of_change {change : DaemonChange} (h : d.change change = some d') :
    d.Entry none d' := by
  cases change with
  | prints id text | exits id statusCode =>
    obtain ⟨c, hfind, h⟩ := Option.bind_eq_some_iff.mp h
    split_ifs at h with hrunning
    cases h
    exact .changed (find?_eq_some.mp hfind).1 ⟨rfl, rfl, by simp [hrunning], fun h => h⟩
  | removes id => exact entry_of_remove none h
  | creates id kwargs =>
    obtain ⟨hfree, rfl⟩ := create_eq_some h
    exact .created hfree rfl

/-- Containers keep their arguments and owners, and their results once they have ended. -/
def Later (d d' : Daemon) : Prop :=
  ∀ ⦃id c⦄, d id = some c → ∃ c', d' id = some c' ∧ c.Later c'

theorem Later.refl (d : Daemon) : d.Later d := fun _ _ h => ⟨_, h, .refl _⟩

theorem Later.trans (h : d.Later d') (h' : d'.Later d'') : d.Later d'' := by
  intro id c hc
  obtain ⟨c', hc', hlater⟩ := h hc
  obtain ⟨c'', hc'', hlater'⟩ := h' hc'
  exact ⟨c'', hc'', hlater.trans hlater'⟩

theorem Entry.later {owner : Option ℕ} (h : d.Entry owner d') : d.Later d' := by
  intro id c hc
  cases h with
  | none => exact ⟨c, hc, .refl c⟩
  | @created id' c₁ hfree howner =>
    by_cases hid : id = id'
    · subst hid
      cases hfree.symm.trans hc
    · exact ⟨c, (put_of_ne hid).trans hc, .refl c⟩
  | @changed id' c₁ c₂ hc₁ hlater =>
    by_cases hid : id = id'
    · subst hid
      cases hc.symm.trans hc₁
      exact ⟨c₂, put_self, hlater⟩
    · exact ⟨c, (put_of_ne hid).trans hc, .refl c⟩

theorem back_put {other : String} {c c' c'' : Container} (hc : d id = some c) (hlater : c.Later c')
    (hc'' : d.put id c' other = some c'') : ∃ c, d other = some c ∧ c.Later c'' := by
  by_cases hid : other = id
  · subst hid
    cases put_self.symm.trans hc''
    exact ⟨c, hc, hlater⟩
  · exact ⟨c'', (put_of_ne hid).symm.trans hc'', .refl c''⟩

/-- A container in the book was there before, or has just been entered. -/
theorem Entry.back {owner : Option ℕ} {c' : Container} (h : d.Entry owner d')
    (hc' : d' id = some c') :
    (∃ c, d id = some c ∧ c.Later c') ∨ (d id = .none ∧ c'.owner = owner) := by
  cases h with
  | none => exact Or.inl ⟨c', hc', .refl c'⟩
  | @created id' c₁ hfree howner =>
    by_cases hid : id = id'
    · subst hid
      cases put_self.symm.trans hc'
      exact Or.inr ⟨hfree, howner⟩
    · exact Or.inl ⟨c', (put_of_ne hid).symm.trans hc', .refl c'⟩
  | changed hc hlater => exact Or.inl (back_put hc hlater hc')

theorem back_of_kill {other : String} {c' : Container} (h : d.kill id = some d')
    (hc' : d' other = some c') : ∃ c, d other = some c ∧ c.Later c' := by
  obtain ⟨c, hfind, -, rfl⟩ := kill_eq_some h
  exact back_put (find?_eq_some.mp hfind).1 c.later_halt hc'

theorem back_of_remove {other : String} {c' : Container} (h : d.remove id = some d')
    (hc' : d' other = some c') : ∃ c, d other = some c ∧ c.Later c' := by
  obtain ⟨c, hfind, rfl⟩ := remove_eq_some h
  exact back_put (find?_eq_some.mp hfind).1 c.later_removed hc'

end Daemon

/-! ### The turns of a call -/

/-- The ways a turn of `run` is taken. -/
inductive SandboxTurn (limits : SandboxLimits) (fs : FileSystem) (k : ℕ) (call : SandboxCall)
    (d : Daemon) (answer : DaemonAnswer) : Sandboxing → Daemon → Sandboxing → Prop
  | connected : SandboxTurn limits fs k call d answer .connecting d (.starting .install answer.now)
  | unconnected : SandboxTurn limits fs k call d answer .connecting d (.raised answer.exc)
  | started {stage start d'}
      (hcreate : d.create answer.id (containerFor limits fs k call stage answer) = some d') :
      SandboxTurn limits fs k call d answer (.starting stage start) d'
        (.waiting stage start answer.id)
  | notStarted {stage start} :
      SandboxTurn limits fs k call d answer (.starting stage start) d (.raised answer.exc)
  /-- There is a container, and the call does not get to know its id. -/
  | lost {stage start d'} (hweather : answer.weather ≠ .fair)
      (hcreate : d.create answer.id (containerFor limits fs k call stage answer) = some d') :
      SandboxTurn limits fs k call d answer (.starting stage start) d' (.raised answer.exc)
  | exited {stage start id statusCode c} (hfind : d.find? id = some c)
      (hexited : c.condition = .exited statusCode) :
      SandboxTurn limits fs k call d answer (.waiting stage start id) d
        (.reading stage start id statusCode)
  | overran {stage start id} :
      SandboxTurn limits fs k call d answer (.waiting stage start id) d (.killing stage id)
  | killed {stage id d'} (hkill : d.kill id = some d') :
      SandboxTurn limits fs k call d answer (.killing stage id) d'
        (.removing stage id (.error (.timeout (timeoutMessage (stageTimeout limits stage)))))
  | notKilled {stage id d'} (hkill : d' = d ∨ d.kill id = some d') :
      SandboxTurn limits fs k call d answer (.killing stage id) d'
        (.removing stage id (.error (.other answer.exc)))
  | read {stage start id statusCode c} (hfind : d.find? id = some c) :
      SandboxTurn limits fs k call d answer (.reading stage start id statusCode) d
        (.removing stage id (.ok (truncate c.logs, statusCode.getD (-1), answer.now - start)))
  | notRead {stage start id statusCode} :
      SandboxTurn limits fs k call d answer (.reading stage start id statusCode) d
        (.removing stage id (.error (.other answer.exc)))
  | removed {stage id outcome d'} (hremove : d.remove id = some d') :
      SandboxTurn limits fs k call d answer (.removing stage id outcome) d'
        (afterContainer call answer.now stage outcome)
  | notRemoved {stage id outcome} (hwhy : d.remove id = none ∨ answer.weather ≠ .fair) :
      SandboxTurn limits fs k call d answer (.removing stage id outcome) d
        (afterContainer call answer.now stage outcome)

section Turns

variable {limits : SandboxLimits} {fs : FileSystem} {k : ℕ} {call : SandboxCall}
  {calls : List SandboxCall} {d d' : Daemon} {answer : DaemonAnswer} {place place' : Sandboxing}

theorem sandboxTurn_taken (h : sandboxTurn limits fs k call d answer place = some (d', place')) :
    SandboxTurn limits fs k call d answer place d' place' := by
  cases place with
  | connecting =>
    simp only [sandboxTurn] at h
    split_ifs at h with hfair
    · cases h
      exact .connected
    · cases h
      exact .unconnected
  | starting stage start =>
    have hreq := requested
      (fun d : Daemon => (d.create answer.id (containerFor limits fs k call stage answer)).map
        fun d => (d, Sandboxing.waiting stage start answer.id)) answer.weather
      (.raised answer.exc) d
    rw [Option.some.inj h] at hreq
    cases hreq with
    | refused | notSent => exact .notStarted
    | done _ hop =>
      obtain ⟨d₁, hcreate, heq⟩ := Option.map_eq_some_iff.mp hop
      cases heq
      exact .started hcreate
    | unheard hweather hop =>
      obtain ⟨d₁, hcreate, rfl⟩ := Option.map_eq_some_iff.mp hop
      exact .lost (by simp [hweather]) hcreate
  | waiting stage start id =>
    simp only [sandboxTurn] at h
    split at h
    · next c _ hfind =>
      split at h
      · next hexited =>
        cases h
        exact .exited hfind hexited
      · cases h
      · cases h
    · cases h
      exact .overran
  | killing stage id =>
    have hreq := requested
      (fun d : Daemon => (d.kill id).map fun d => (d, Sandboxing.removing stage id
        (.error (.timeout (timeoutMessage (stageTimeout limits stage)))))) answer.weather
      (.removing stage id (.error (.other answer.exc))) d
    rw [Option.some.inj h] at hreq
    cases hreq with
    | refused | notSent => exact .notKilled (Or.inl rfl)
    | done _ hop =>
      obtain ⟨d₁, hkill, heq⟩ := Option.map_eq_some_iff.mp hop
      cases heq
      exact .killed hkill
    | unheard _ hop =>
      obtain ⟨d₁, hkill, rfl⟩ := Option.map_eq_some_iff.mp hop
      exact .notKilled (Or.inr hkill)
  | reading stage start id statusCode =>
    have hreq := requested
      (fun d : Daemon => (d.find? id).map fun c => (d, Sandboxing.removing stage id
        (.ok (truncate c.logs, statusCode.getD (-1), answer.now - start)))) answer.weather
      (.removing stage id (.error (.other answer.exc))) d
    rw [Option.some.inj h] at hreq
    cases hreq with
    | refused | notSent => exact .notRead
    | done _ hop =>
      obtain ⟨c, hfind, heq⟩ := Option.map_eq_some_iff.mp hop
      cases heq
      exact .read hfind
    | unheard _ hop =>
      obtain ⟨c, hfind, rfl⟩ := Option.map_eq_some_iff.mp hop
      exact .notRead
  | removing stage id outcome =>
    have hreq := requested
      (fun d : Daemon => (d.remove id).map fun d =>
        (d, afterContainer call answer.now stage outcome)) answer.weather
      (afterContainer call answer.now stage outcome) d
    rw [Option.some.inj h] at hreq
    cases hreq with
    | refused hop => exact .notRemoved (Or.inl (Option.map_eq_none_iff.mp hop))
    | notSent hweather => exact .notRemoved (Or.inr (by simp [hweather]))
    | done _ hop | unheard _ hop =>
      obtain ⟨d₁, hremove, heq⟩ := Option.map_eq_some_iff.mp hop
      cases heq
      exact .removed hremove
  | returned | raised => cases h

theorem SandboxTurn.entry (h : SandboxTurn limits fs k call d answer place d' place') :
    d.Entry (some k) d' := by
  cases h with
  | connected | unconnected | notStarted | exited | overran | read | notRead | notRemoved =>
    exact .none
  | started hcreate | lost _ hcreate =>
    obtain ⟨hfree, rfl⟩ := Daemon.create_eq_some hcreate
    exact .created hfree rfl
  | killed hkill => exact Daemon.entry_of_kill _ hkill
  | notKilled hkill =>
    rcases hkill with rfl | hkill
    · exact .none
    · exact Daemon.entry_of_kill _ hkill
  | removed hremove => exact Daemon.entry_of_remove _ hremove

/-- A turn in a run is a turn of the call with that number. -/
theorem sandboxTurn_of_act
    (h : (sandboxes limits fs calls).act k d place answer = some (d', place')) :
    ∃ call, calls[k]? = some call ∧ SandboxTurn limits fs k call d answer place d' place' := by
  obtain ⟨call, hk, hturn⟩ := Option.bind_eq_some_iff.mp h
  exact ⟨call, hk, sandboxTurn_taken hturn⟩

end Turns

end StackMigrate
