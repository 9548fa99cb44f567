import StackMigrate.Api.Decisions
import StackMigrate.Library.KeyedLocks

/-!
# One lock for each run

A lock enters the table once and stays, so all calls for a run wait for the same one, and one
of them at a time is inside its block.
-/

namespace StackMigrate

/-- The run that a call is about. -/
def runOf (calls : List DecideCall) (k : ℕ) : Option String := calls[k]?.map DecideCall.runId

/-- The run that a lock was made for. -/
def RunLock.runId (calls : List DecideCall) : RunLock → Option String
  | earlier runId => some runId
  | made k => runOf calls k

/-- Where a coroutine stands with respect to its lock. -/
def Coroutine.stage : Coroutine → KeyedLocks.Stage RunLock
  | started | answered _ => .away
  | waiting lock => .waiting lock
  | inside lock _ => .inside lock

/-- What the locks see of the server. -/
def Server.lockTable (s : Server) : KeyedLocks.Table String RunLock ℕ where
  lockOf := s.runLocks
  locked := s.locked
  stage := Coroutine.stage ∘ s.coroutines

/-- `run_locks` and its locks are used as they are meant to be. -/
def Locking (calls : List DecideCall) (s : Server) : Prop :=
  KeyedLocks.Disciplined (runOf calls) (RunLock.runId calls) s.lockTable

theorem runOf_eq {calls : List DecideCall} {k : ℕ} {call : DecideCall}
    (hk : calls[k]? = some call) : runOf calls k = some call.runId := by
  simp [runOf, hk]

theorem stage_eq_inside {coroutine : Coroutine} {lock : RunLock} :
    coroutine.stage = .inside lock ↔ ∃ place, coroutine = .inside lock place := by
  cases coroutine <;> simp [Coroutine.stage]

theorem locking_idle (calls : List DecideCall) (checkpoints : String → Option Snapshot)
    (knownRuns : String → Bool) : Locking calls (.idle checkpoints knownRuns) := by
  refine .of_away ?_ (fun _ => rfl) fun _ => rfl
  intro runId lock h
  simp only [Server.lockTable, Server.idle] at h
  split at h
  · cases h
    rfl
  · cases h

namespace Locking

variable {calls : List DecideCall} {s s' : Server} {j k : ℕ} {call call' : DecideCall}
  {lock lock' : RunLock} {place place' : Place}

/-- Two coroutines inside the block of one run are the same. -/
theorem eq_of_inside (h : Locking calls s) (hj : calls[j]? = some call)
    (hk : calls[k]? = some call') (hrun : call.runId = call'.runId)
    (hatj : s.coroutines j = .inside lock place) (hatk : s.coroutines k = .inside lock' place') :
    j = k := by
  have hkeyj : runOf calls j = some call'.runId := hrun ▸ runOf_eq hj
  have hstagej : s.lockTable.stage j = .inside lock := stage_eq_inside.mpr ⟨place, hatj⟩
  have hstagek : s.lockTable.stage k = .inside lock' := stage_eq_inside.mpr ⟨place', hatk⟩
  exact KeyedLocks.Disciplined.eq_of_inside h hkeyj (runOf_eq hk) hstagej hstagek

/-- The lock of a coroutine was made for its run. -/
theorem runId_eq (h : Locking calls s) (hk : calls[k]? = some call)
    (hlock : (s.coroutines k).stage.lock? = some lock) : lock.runId calls = some call.runId :=
  h.madeFor_eq (runOf_eq hk) hlock

/-- Whoever waits for a locked lock waits for a coroutine that is inside. -/
theorem exists_inside (h : Locking calls s) (hlocked : s.locked lock = true) :
    ∃ k call place, calls[k]? = some call ∧ s.coroutines k = .inside lock place := by
  obtain ⟨k, runId, hkey, hstage⟩ := h.holder hlocked
  obtain ⟨call, hk, -⟩ := Option.map_eq_some_iff.mp hkey
  obtain ⟨place, hat⟩ := stage_eq_inside.mp hstage
  exact ⟨k, call, place, hk, hat⟩

/-- The discipline survives every turn. -/
theorem step [UnicodeData] {turn : Turn} (h : Locking calls s) (hk : calls[k]? = some call)
    (hturn : TurnTaken s k call turn s') : Locking calls s' := by
  -- inside the block the locks see nothing
  have hinside : ∀ {t : Server} {lock place place'}, t.runLocks = s.runLocks →
      t.locked = s.locked → s.coroutines k = .inside lock place →
      t.coroutines = Function.update s.coroutines k (.inside lock place') → Locking calls t := by
    intro t lock place place' hlocks hlocked hat hmoved
    have hstage : Coroutine.stage ∘ t.coroutines = Coroutine.stage ∘ s.coroutines := by
      rw [hmoved, Function.comp_update, Function.update_eq_self_iff]
      simp [hat, Coroutine.stage]
    have hsame : t.lockTable = s.lockTable := by
      simp [Server.lockTable, hlocks, hlocked, hstage]
    rw [Locking, hsame]
    exact h
  cases hturn with
  | setdefault lock hat hlock =>
    have haway : s.lockTable.stage k = .away := by simp [Server.lockTable, hat, Coroutine.stage]
    have hmade : (RunLock.made k).runId calls = some call.runId := runOf_eq hk
    have htable : ((s.setLock call.runId lock).setCoroutine k (.waiting lock)).lockTable =
        s.lockTable.setdefault k call.runId (.made k) := by
      rw [hlock]
      simp [Server.lockTable, Server.setLock, Server.setCoroutine, KeyedLocks.Table.setdefault,
        Function.comp_update, Coroutine.stage]
    rw [Locking, htable]
    exact KeyedLocks.Disciplined.setdefault h (runOf_eq hk) haway hmade
  | acquire lock hat hfree =>
    have hwaiting : s.lockTable.stage k = .waiting lock := by
      simp [Server.lockTable, hat, Coroutine.stage]
    have htable : ((s.setLocked lock true).setCoroutine k (.inside lock .reading)).lockTable =
        s.lockTable.acquire k lock := by
      simp [Server.lockTable, Server.setLocked, Server.setCoroutine, KeyedLocks.Table.acquire,
        Function.comp_update, Coroutine.stage]
    rw [Locking, htable]
    exact KeyedLocks.Disciplined.acquire h (runOf_eq hk) hwaiting hfree
  | reread lock hat => exact hinside rfl rfl hat rfl
  | resume lock c c' hat => exact hinside rfl rfl hat rfl
  | drive lock i c c' hat =>
    have hsame : (s.commit call.runId c').coroutines =
        Function.update s.coroutines k (.inside lock .running) := by
      rw [← hat, Function.update_eq_self]
      rfl
    exact hinside rfl rfl hat hsame
  | finish lock c hat => exact hinside rfl rfl hat rfl
  | release lock response hat =>
    have hstage : s.lockTable.stage k = .inside lock := stage_eq_inside.mpr ⟨_, hat⟩
    have htable : ((s.setLocked lock false).setCoroutine k (.answered response)).lockTable =
        s.lockTable.release k lock := by
      simp [Server.lockTable, Server.setLocked, Server.setCoroutine, KeyedLocks.Table.release,
        Function.comp_update, Coroutine.stage]
    rw [Locking, htable]
    exact KeyedLocks.Disciplined.release h hstage

end Locking

end StackMigrate
