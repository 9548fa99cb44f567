import StackMigrate.Graph.Replay

/-!
# What the dispatch gate answers

With work in hand the gate is to abort or to dispatch. It looks at the clock twice and
divides by the reserve, and both can keep it from doing either.
-/

namespace StackMigrate

/-- The answers of the gate that keep a run going: an abort, or branches for ready tasks in
the order of the task list. -/
def Answers (s : GraphState) : Except PyException Route → Prop
  | .ok .budgetExhausted => True
  | .ok (.sends branches) =>
    branches ≠ [] ∧ List.Sublist (branches.map Send.currentTask) (getReadyTasks s.tasks) ∧
      ((s.tasks.map MigrationTask.id).Nodup →
        ((branches.map Send.currentTask).map MigrationTask.id).Nodup)
  | .ok .noReadyTasks | .error _ => False

theorem answers_sendsFor {s : GraphState} {wave : List MigrationTask} (hne : wave ≠ [])
    (hwave : List.Sublist wave (getReadyTasks s.tasks)) :
    Answers s (.ok (.sends (sendsFor s wave))) := by
  refine ⟨by simpa [sendsFor] using hne, by simpa using hwave, ?_⟩
  intro hnd
  rw [currentTask_sendsFor]
  exact hnd.sublist ((hwave.trans (getReadyTasks_sublist s.tasks)).map _)

/-- The gate answers exactly when the limit does not lie between its two readings and there
is a reserve to divide by. -/
theorem gate_answers_iff {s : GraphState} {gate : GateReadings}
    (hready : getReadyTasks s.tasks ≠ []) :
    Answers s (routeToEditors s gate) ↔
      s.budget.isExhausted gate.first = true ∨
        (s.budget.isExhausted gate.second = false ∧ s.budget.callReserve ≠ 0) := by
  have hpass := routeToEditors_pass s gate
  generalize routeToEditors s gate = answer at hpass ⊢
  cases hpass with
  | nothingReady hnone => exact absurd hnone hready
  | exhausted _ hfirst => simp [Answers, hfirst]
  | crossed _ hfirst hsecond => simp [Answers, hfirst, hsecond]
  | zeroReserve _ hfirst _ hreserve => simp [Answers, hfirst, hreserve]
  | dispatched _ _ hsecond hreserve =>
    have hanswer := answers_sendsFor (nextWave_ne_nil hready) (nextWave_sublist s)
    exact iff_of_true hanswer (Or.inr ⟨hsecond, hreserve⟩)

/-- A plan of one task, with an hour to go. -/
def oneTaskState : GraphState :=
  plannedState demoConfig { maxUsd := 5, startedAt := 0 } 5 ⟨"springboot", "", [], [], []⟩
    [{ id := "task-1" }]

theorem gate_answers_iff_oneTask :
    Answers oneTaskState (routeToEditors oneTaskState ⟨0, 1⟩) := by
  have hready : getReadyTasks oneTaskState.tasks ≠ [] := by decide
  exact (gate_answers_iff hready).mpr (Or.inr (by decide +kernel))

/-- The limit of one hour is reached between the two readings: no abort and no branch, and
the edge ends the graph in the middle of editing. -/
theorem gate_falls_silent :
    getReadyTasks oneTaskState.tasks ≠ [] ∧
      (match routeToEditors oneTaskState ⟨3599, 3600⟩ with
        | .ok (.sends branches) => branches.isEmpty
        | _ => false) = true ∧
      ¬ Answers oneTaskState (routeToEditors oneTaskState ⟨3599, 3600⟩) ∧
      (planned oneTaskState ⟨3599, 3600⟩).next.isFinished = true ∧
      oneTaskState.phase = some .editing := by
  have hsilent : (match routeToEditors oneTaskState ⟨3599, 3600⟩ with
      | .ok (.sends branches) => branches.isEmpty
      | _ => false) = true := by decide +kernel
  refine ⟨by decide, hsilent, ?_, by decide +kernel, rfl⟩
  intro hanswer
  generalize routeToEditors oneTaskState ⟨3599, 3600⟩ = answer at hsilent hanswer
  split at hsilent
  · exact hanswer.1 (List.isEmpty_iff.mp hsilent)
  · cases hsilent

end StackMigrate
