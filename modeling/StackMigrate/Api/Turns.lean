import StackMigrate.Api.Verdicts
import Mathlib.Algebra.Order.BigOperators.Group.Finset

/-!
# Every call is answered, and none disturbs another run

No coroutine waits for ever: some call can always go on until all are answered, and each has a
bounded number of turns. What happens to one run depends on the calls for that run alone.
-/

namespace StackMigrate

section Turns

variable [UnicodeData] {calls : List DecideCall} {runId : String} {s s' s₁ : Server} {j k : ℕ}
  {call : DecideCall} {lock : RunLock} {place : Place} {turn : Turn}

theorem locking_of_run {start : Server} {turns : List (ℕ × Turn)} (hstart : Locking calls start)
    (h : (server calls).Run start turns s) : Locking calls s := by
  refine h.invariant (I := Locking calls) hstart ?_
  rintro s ⟨k, turn⟩ s' hs hstep -
  obtain ⟨call, hk, hturn⟩ := turnTaken_of_step hstep
  exact hs.step hk hturn

/-! ### Isolation -/

/-- The server looks the same to all calls for one run. -/
structure SameFor (calls : List DecideCall) (runId : String) (s s' : Server) : Prop where
  checkpoint : s.checkpoints runId = s'.checkpoints runId
  runLock : s.runLocks runId = s'.runLocks runId
  locked : ∀ {lock}, lock.runId calls = some runId → s.locked lock = s'.locked lock
  coroutines : ∀ {k call}, calls[k]? = some call → call.runId = runId →
    s.coroutines k = s'.coroutines k

namespace SameFor

omit [UnicodeData]

theorem refl (calls : List DecideCall) (runId : String) (s : Server) : SameFor calls runId s s :=
  ⟨rfl, rfl, fun _ => rfl, fun _ _ => rfl⟩

theorem setCoroutine (h : SameFor calls runId s s') (k : ℕ) (coroutine : Coroutine) :
    SameFor calls runId (s.setCoroutine k coroutine) (s'.setCoroutine k coroutine) := by
  refine ⟨h.checkpoint, h.runLock, h.locked, ?_⟩
  intro i call hi hrun
  by_cases hik : i = k
  · subst hik
    simp
  · simpa [Function.update_of_ne hik] using h.coroutines hi hrun

theorem setLock (h : SameFor calls runId s s') (lock : RunLock) :
    SameFor calls runId (s.setLock runId lock) (s'.setLock runId lock) :=
  ⟨h.checkpoint, by simp, h.locked, h.coroutines⟩

theorem setLocked (h : SameFor calls runId s s') (lock : RunLock) (locked : Bool) :
    SameFor calls runId (s.setLocked lock locked) (s'.setLocked lock locked) := by
  refine ⟨h.checkpoint, h.runLock, ?_, h.coroutines⟩
  intro lock' hlock'
  by_cases hne : lock' = lock
  · subst hne
    simp
  · simpa [Function.update_of_ne hne] using h.locked hlock'

theorem commit (h : SameFor calls runId s s') (c : Snapshot) :
    SameFor calls runId (s.commit runId c) (s'.commit runId c) :=
  ⟨by simp, h.runLock, h.locked, h.coroutines⟩

end SameFor

/-- A turn for another run goes unnoticed. -/
theorem SameFor.frame (h : SameFor calls runId s s') (hlocks : Locking calls s)
    (hk : calls[k]? = some call) (hrun : call.runId ≠ runId)
    (hturn : TurnTaken s k call turn s₁) : SameFor calls runId s₁ s' := by
  have hother : ∀ {lock lock'}, (s.coroutines k).stage.lock? = some lock →
      lock'.runId calls = some runId → lock' ≠ lock := by
    rintro lock lock' hlock hlock' rfl
    rw [hlocks.runId_eq hk hlock] at hlock'
    exact hrun (Option.some.inj hlock')
  refine ⟨?_, ?_, ?_, ?_⟩
  · rw [hturn.checkpoints_of_ne hrun.symm]
    exact h.checkpoint
  · rw [hturn.runLocks_of_ne hrun.symm]
    exact h.runLock
  · intro lock' hlock'
    rw [← h.locked hlock']
    cases hturn with
    | acquire lock hat | release lock _ hat =>
      have hne := hother (by rw [hat]; rfl) hlock'
      simp [hne]
    | _ => rfl
  · intro i call' hi hrun'
    have hik : i ≠ k := by
      rintro rfl
      cases hk.symm.trans hi
      exact hrun hrun'
    rw [hturn.coroutines_of_ne hik]
    exact h.coroutines hi hrun'

/-- A turn for the run can be taken wherever the server looks the same. -/
theorem SameFor.step (h : SameFor calls runId s s') (hlocks : Locking calls s)
    (hk : calls[k]? = some call) (hrun : call.runId = runId)
    (hturn : TurnTaken s k call turn s₁) :
    ∃ s₁', TurnTaken s' k call turn s₁' ∧ SameFor calls runId s₁ s₁' := by
  subst hrun
  have hsame := h.coroutines hk rfl
  have hlock : ∀ {lock}, (s.coroutines k).stage.lock? = some lock →
      s.locked lock = s'.locked lock :=
    fun hlock => h.locked (hlocks.runId_eq hk hlock)
  cases hturn with
  | setdefault lock hat hlock' =>
    rw [h.runLock] at hlock'
    exact ⟨_, .setdefault lock (hsame ▸ hat) hlock', (h.setLock lock).setCoroutine k _⟩
  | acquire lock hat hfree =>
    rw [hlock (by rw [hat]; rfl)] at hfree
    exact ⟨_, .acquire lock (hsame ▸ hat) hfree, (h.setLocked lock true).setCoroutine k _⟩
  | reread lock hat =>
    refine ⟨_, .reread lock (hsame ▸ hat), ?_⟩
    rw [h.checkpoint]
    exact h.setCoroutine k _
  | resume lock c c' hat hc hstep =>
    rw [h.checkpoint] at hc
    exact ⟨_, .resume lock c c' (hsame ▸ hat) hc hstep, (h.commit c').setCoroutine k _⟩
  | drive lock i c c' hat hc hgoing hstep =>
    rw [h.checkpoint] at hc
    exact ⟨_, .drive lock i c c' (hsame ▸ hat) hc hgoing hstep, h.commit c'⟩
  | finish lock c hat hc hrest =>
    rw [h.checkpoint] at hc
    exact ⟨_, .finish lock c (hsame ▸ hat) hc hrest, h.setCoroutine k _⟩
  | release lock response hat =>
    exact ⟨_, .release lock response (hsame ▸ hat), (h.setLocked lock false).setCoroutine k _⟩

/-- The turns of the calls for one run. -/
def turnsFor (calls : List DecideCall) (runId : String) (turns : List (ℕ × Turn)) :
    List (ℕ × Turn) :=
  turns.filter fun t => runOf calls t.1 = some runId

/-- Without the calls for other runs, the same happens to the run and to the calls for it. -/
theorem run_turnsFor {start : Server} {turns : List (ℕ × Turn)} (hstart : Locking calls start)
    (h : (server calls).Run start turns s) :
    ∃ s', (server calls).Run start (turnsFor calls runId turns) s' ∧
      SameFor calls runId s s' := by
  induction h with
  | refl => exact ⟨start, .refl, .refl _ _ _⟩
  | @snoc turns s t s₁ hrun hstep _ ih =>
    obtain ⟨s', hrun', hsame⟩ := ih
    obtain ⟨call, hk, hturn⟩ := turnTaken_of_step hstep
    have hlocks := locking_of_run hstart hrun
    by_cases hmine : call.runId = runId
    · obtain ⟨s₁', hturn', hsame'⟩ := hsame.step hlocks hk hmine hturn
      have hturns : turnsFor calls runId (turns ++ [t]) = turnsFor calls runId turns ++ [t] := by
        simp [turnsFor, runOf, hk, hmine]
      rw [hturns]
      exact ⟨s₁', hrun'.snoc (step_of_turnTaken hk hturn'), hsame'⟩
    · have hturns : turnsFor calls runId (turns ++ [t]) = turnsFor calls runId turns := by
        simp [turnsFor, runOf, hk, hmine]
      rw [hturns]
      exact ⟨s', hrun', hsame.frame hlocks hk hmine hturn⟩

/-! ### Progress -/

/-- A call that resumes or drives the graph has a checkpoint to go on from. -/
structure Served (calls : List DecideCall) (s : Server) : Prop where
  resuming : ∀ {k call lock}, calls[k]? = some call → s.coroutines k = .inside lock .resuming →
    ∃ c, s.checkpoints call.runId = some c
  running : ∀ {k call lock}, calls[k]? = some call → s.coroutines k = .inside lock .running →
    ∃ c, s.checkpoints call.runId = some c ∧ (c.next = .finished ∨ c.next = .node .prPublish)

omit [UnicodeData] in
theorem served_idle (calls : List DecideCall) (checkpoints : String → Option Snapshot)
    (knownRuns : String → Bool) : Served calls (.idle checkpoints knownRuns) := by
  constructor <;> simp [Server.idle]

/-- While a coroutine is inside its block, nobody else commits to its run. -/
theorem checkpoints_eq_of_inside (hlocks : Locking calls s) (hk : calls[k]? = some call)
    (hturn : TurnTaken s k call turn s') {call' : DecideCall} (hj : calls[j]? = some call')
    (hat : s.coroutines j = .inside lock place) (hne : j ≠ k) :
    s'.checkpoints call'.runId = s.checkpoints call'.runId := by
  by_cases hrun : call'.runId = call.runId
  · cases hturn with
    | resume _ _ _ hat' | drive _ _ _ _ hat' =>
      exact absurd (hlocks.eq_of_inside hj hk hrun hat hat') hne
    | _ => rfl
  · exact hturn.checkpoints_of_ne hrun

theorem Served.step (h : Served calls s) (hlocks : Locking calls s) (hk : calls[k]? = some call)
    (hturn : TurnTaken s k call turn s') : Served calls s' := by
  constructor
  · intro j call' lock' hj hat'
    by_cases hjk : j = k
    · subst hjk
      cases hk.symm.trans hj
      cases hturn with
      | reread lock =>
        cases hc : s.checkpoints call.runId with
        | none => simp [hc, checked] at hat'
        | some c => exact ⟨c, hc⟩
      | drive _ _ _ _ hat => simp [hat] at hat'
      | _ => simp at hat'
    · rw [hturn.coroutines_of_ne hjk] at hat'
      rw [checkpoints_eq_of_inside hlocks hk hturn hj hat' hjk]
      exact h.resuming hj hat'
  · intro j call' lock' hj hat'
    by_cases hjk : j = k
    · subst hjk
      cases hk.symm.trans hj
      cases hturn with
      | reread lock =>
        cases hc : s.checkpoints call.runId with
        | none => simp [hc, checked] at hat'
        | some c =>
          simp only [hc, checked, Server.setCoroutine_coroutines, Function.update_self] at hat'
          split at hat' <;> simp at hat'
      | resume lock c c' hat hc hstep => exact ⟨c', by simp, next_of_resumed hstep⟩
      | drive lock i c c' hat hc hgoing hstep =>
        obtain ⟨c₁, hc₁, hnext⟩ := h.running hj hat
        cases hc.symm.trans hc₁
        rcases hnext with hnext | hnext
        · rw [hnext] at hgoing
          cases hgoing
        · exact ⟨c', by simp, Or.inl (next_of_prPublish hnext hstep)⟩
      | _ => simp at hat'
    · rw [hturn.coroutines_of_ne hjk] at hat'
      rw [checkpoints_eq_of_inside hlocks hk hturn hj hat' hjk]
      exact h.running hj hat'

/-- Whoever is inside the block can go on. -/
theorem exists_turn_of_inside (h : Served calls s) (hk : calls[k]? = some call)
    (hat : s.coroutines k = .inside lock place) : ∃ turn s', TurnTaken s k call turn s' := by
  cases place with
  | reading => exact ⟨_, _, .reread lock hat⟩
  | resuming =>
    obtain ⟨c, hc⟩ := h.resuming hk hat
    obtain ⟨c', hstep⟩ := exists_resumed c call.decision
    exact ⟨_, _, .resume lock c c' hat hc hstep⟩
  | running =>
    obtain ⟨c, hc, hnext | hnext⟩ := h.running hk hat
    · exact ⟨_, _, .finish lock c hat hc (by rw [hnext]; rfl)⟩
    · have hstep : ∃ c', graph.step c (.prPublish (.error "")) = some c' := by
        simp [graph, StackMigrate.step, hnext]
      obtain ⟨c', hstep⟩ := hstep
      exact ⟨_, _, .drive lock _ c c' hat hc (by rw [hnext]; rfl) hstep⟩
  | leaving response => exact ⟨_, _, .release lock response hat⟩

/-- Until all calls are answered, some coroutine can go on. -/
theorem exists_turn (h : Served calls s) (hlocks : Locking calls s)
    (hk : calls[k]? = some call) (hopen : ∀ response, s.coroutines k ≠ .answered response) :
    ∃ t s', (server calls).step s t = some s' := by
  have hinside : ∀ {j call' lock place}, calls[j]? = some call' →
      s.coroutines j = .inside lock place → ∃ t s', (server calls).step s t = some s' := by
    intro j call' lock place hj hat
    obtain ⟨turn, s', hturn⟩ := exists_turn_of_inside h hj hat
    exact ⟨(j, turn), s', step_of_turnTaken hj hturn⟩
  cases hat : s.coroutines k with
  | started => exact ⟨(k, .setdefault), _, step_of_turnTaken hk (.setdefault _ hat rfl)⟩
  | waiting lock =>
    cases hlocked : s.locked lock with
    | false => exact ⟨(k, .acquire), _, step_of_turnTaken hk (.acquire lock hat hlocked)⟩
    | true =>
      obtain ⟨j, call', place, hj, hat'⟩ := hlocks.exists_inside hlocked
      exact hinside hj hat'
  | inside lock place => exact hinside hk hat
  | answered response => exact absurd hat (hopen response)

/-! ### The number of turns -/

/-- The most turns that a coroutine still takes. -/
def Coroutine.turnsLeft (checkpoint : Option Snapshot) : Coroutine → ℕ
  | started => 7
  | waiting _ => 6
  | inside _ .reading => 5
  | inside _ .resuming => 4
  | inside _ .running => if checkpoint.any fun c => c.next.isAtRest then 2 else 3
  | inside _ (.leaving _) => 1
  | answered _ => 0

/-- The most turns that the call with number `k` still takes. -/
def Server.turnsLeft (calls : List DecideCall) (s : Server) (k : ℕ) : ℕ :=
  calls[k]?.elim 0 fun call => (s.coroutines k).turnsLeft (s.checkpoints call.runId)

def Server.allTurnsLeft (calls : List DecideCall) (s : Server) : ℕ :=
  ∑ k ∈ Finset.range calls.length, s.turnsLeft calls k

omit [UnicodeData] in
theorem turnsLeft_of_not_inside {coroutine : Coroutine}
    (h : ∀ lock, coroutine ≠ .inside lock .running) (checkpoint checkpoint' : Option Snapshot) :
    coroutine.turnsLeft checkpoint = coroutine.turnsLeft checkpoint' := by
  cases coroutine with
  | inside lock place =>
    cases place with
    | running => exact absurd rfl (h lock)
    | _ => rfl
  | _ => rfl

theorem turnsLeft_of_ne (hlocks : Locking calls s) (hk : calls[k]? = some call)
    (hturn : TurnTaken s k call turn s') (hne : j ≠ k) :
    s'.turnsLeft calls j = s.turnsLeft calls j := by
  unfold Server.turnsLeft
  cases hj : calls[j]? with
  | none => rfl
  | some call' =>
    simp only [Option.elim_some, hturn.coroutines_of_ne hne]
    by_cases hrunning : ∃ lock, s.coroutines j = .inside lock .running
    · obtain ⟨lock, hat⟩ := hrunning
      rw [checkpoints_eq_of_inside hlocks hk hturn hj hat hne]
    · exact turnsLeft_of_not_inside (by simpa using hrunning) _ _

theorem turnsLeft_lt (h : Served calls s) (hk : calls[k]? = some call)
    (hturn : TurnTaken s k call turn s') : s'.turnsLeft calls k < s.turnsLeft calls k := by
  unfold Server.turnsLeft
  simp only [hk, Option.elim_some]
  cases hturn with
  | setdefault _ hat | acquire _ hat | release _ _ hat => simp [hat, Coroutine.turnsLeft]
  | reread lock hat =>
    simp only [hat, Server.setCoroutine_coroutines, Function.update_self]
    unfold checked
    repeat' split
    all_goals simp [Coroutine.turnsLeft]
  | resume lock c c' hat =>
    simp only [hat, Server.setCoroutine_coroutines, Function.update_self, Coroutine.turnsLeft]
    split <;> omega
  | drive lock i c c' hat hc hgoing hstep =>
    obtain ⟨c₁, hc₁, hnext⟩ := h.running hk hat
    cases hc.symm.trans hc₁
    rcases hnext with hnext | hnext
    · rw [hnext] at hgoing
      cases hgoing
    · have hrest : c'.next.isAtRest = true := by rw [next_of_prPublish hnext hstep]; rfl
      simp [hat, hc, hgoing, hrest, Coroutine.turnsLeft]
  | finish lock c hat hc hrest => simp [hat, hc, hrest, Coroutine.turnsLeft]

theorem allTurnsLeft_lt (h : Served calls s) (hlocks : Locking calls s)
    (hk : calls[k]? = some call) (hturn : TurnTaken s k call turn s') :
    s'.allTurnsLeft calls < s.allTurnsLeft calls := by
  have hlt := turnsLeft_lt h hk hturn
  refine Finset.sum_lt_sum ?_ ⟨k, ?_, hlt⟩
  · intro j _
    by_cases hjk : j = k
    · rw [hjk]
      exact hlt.le
    · exact (turnsLeft_of_ne hlocks hk hturn hjk).le
  · exact Finset.mem_range.mpr (List.getElem?_eq_some_iff.mp hk).1

omit [UnicodeData] in
theorem allTurnsLeft_idle (calls : List DecideCall) (checkpoints : String → Option Snapshot)
    (knownRuns : String → Bool) :
    (Server.idle checkpoints knownRuns).allTurnsLeft calls = 7 * calls.length := by
  have hall : ∀ k ∈ Finset.range calls.length,
      (Server.idle checkpoints knownRuns).turnsLeft calls k = 7 := by
    intro k hk
    rw [Finset.mem_range] at hk
    simp [Server.turnsLeft, Server.idle, hk, Coroutine.turnsLeft]
  rw [Server.allTurnsLeft, Finset.sum_congr rfl hall]
  simp [Nat.mul_comm]

theorem served_step {t : ℕ × Turn} (h : Locking calls s ∧ Served calls s)
    (hstep : (server calls).step s t = some s') :
    (Locking calls s' ∧ Served calls s') ∧ s'.allTurnsLeft calls < s.allTurnsLeft calls := by
  obtain ⟨call, hk, hturn⟩ := turnTaken_of_step hstep
  exact ⟨⟨h.1.step hk hturn, h.2.step h.1 hk hturn⟩, allTurnsLeft_lt h.2 h.1 hk hturn⟩

theorem served_of_run {checkpoints : String → Option Snapshot} {knownRuns : String → Bool}
    {turns : List (ℕ × Turn)} (h : (server calls).Run (.idle checkpoints knownRuns) turns s) :
    Locking calls s ∧ Served calls s :=
  h.invariant (I := fun s => Locking calls s ∧ Served calls s)
    ⟨locking_idle _ _ _, served_idle _ _ _⟩ fun _ _ _ hs hstep _ => (served_step hs hstep).1

/-- No call takes more than seven turns. -/
theorem length_turns_le {checkpoints : String → Option Snapshot} {knownRuns : String → Bool}
    {turns : List (ℕ × Turn)} (h : (server calls).Run (.idle checkpoints knownRuns) turns s) :
    turns.length ≤ 7 * calls.length := by
  have hle : turns.length + s.allTurnsLeft calls ≤
      (Server.idle checkpoints knownRuns).allTurnsLeft calls :=
    h.length_le (I := fun s => Locking calls s ∧ Served calls s)
      ⟨locking_idle _ _ _, served_idle _ _ _⟩
      (fun _ _ _ hs hstep _ => (served_step hs hstep).1)
      (fun _ _ _ hs hstep _ => (served_step hs hstep).2)
  rw [allTurnsLeft_idle] at hle
  omega

end Turns

end StackMigrate
