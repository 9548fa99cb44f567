import StackMigrate.Graph.Supersteps

/-!
# What a wave of editors leaves behind

The branches of a wave come back in any order. Merged, they replace each dispatched
task once, append the results and deltas of the branches that succeeded, and touch
nothing else that the routers read.
-/

namespace StackMigrate

open KeyedList

/-! ### One branch -/

namespace BranchRecord

/-- The task as the branch returns it. -/
def after (r : BranchRecord) : MigrationTask :=
  match r.outcome with
  | .skipped => { r.task with status := .skipped }
  | .failed => failedTask r.task
  | .succeeded _ _ => { r.task with status := .succeeded }
  | .crashed _ => r.task

def results (r : BranchRecord) : List EditorResult :=
  match r.outcome with
  | .succeeded result _ => [result]
  | _ => []

def costs (r : BranchRecord) : List ℚ :=
  match r.outcome with
  | .succeeded _ costUsd => [costUsd]
  | _ => []

@[simp] theorem id_after (r : BranchRecord) : r.after.id = r.task.id := by
  unfold after
  split <;> rfl

@[simp] theorem dependsOnTaskIds_after (r : BranchRecord) :
    r.after.dependsOnTaskIds = r.task.dependsOnTaskIds := by
  unfold after
  split <;> rfl

@[simp] theorem maxRetries_after (r : BranchRecord) : r.after.maxRetries = r.task.maxRetries := by
  unfold after
  split <;> rfl

end BranchRecord

/-- The four ways through an editor branch. -/
inductive EditorPass (send : Send) (i : BranchInput) : NodeResult BranchRecord → Prop
  | skipped (log : List String) (hexhausted : send.budget.isExhausted i.now = true) :
      EditorPass send i
        { update := .ok
            { tasks := some [{ send.currentTask with status := .skipped }], errorLog := log }
          record := ⟨send.currentTask, .skipped⟩ }
  | failed (log : List String) (exc : String) (hleft : send.budget.isExhausted i.now = false)
      (houtcome : i.outcome = .raised exc) :
      EditorPass send i
        { update := .ok { tasks := some [failedTask send.currentTask], errorLog := log }
          record := ⟨send.currentTask, .failed⟩ }
  | crashed (exc : PyException) (costUsd : ℚ) (inputTokens outputTokens : ℤ)
      (hleft : send.budget.isExhausted i.now = false)
      (houtcome : i.outcome = .responded none costUsd inputTokens outputTokens) :
      EditorPass send i { update := .error exc, record := ⟨send.currentTask, .crashed costUsd⟩ }
  | succeeded (result : EditorResult) (generated : EditorGenerationResult) (costUsd : ℚ)
      (inputTokens outputTokens : ℤ) (hleft : send.budget.isExhausted i.now = false)
      (houtcome : i.outcome = .responded (some generated) costUsd inputTokens outputTokens)
      (hid : result.taskId = send.currentTask.id) (hdiffs : result.diffs = generated.files) :
      EditorPass send i
        { update := .ok
            { tasks := some [{ send.currentTask with status := .succeeded }]
              editorResults := [result]
              budgetDeltas := [costUsd] }
          record := ⟨send.currentTask, .succeeded result costUsd⟩ }

theorem editorNode_pass (send : Send) (i : BranchInput) :
    EditorPass send i (editorNode send i) := by
  unfold editorNode
  cases hex : send.budget.isExhausted i.now with
  | true => exact .skipped _ hex
  | false =>
    cases hout : i.outcome with
    | raised exc => exact .failed _ exc hex hout
    | responded result costUsd inputTokens outputTokens =>
      cases result with
      | none => exact .crashed _ costUsd _ _ hex hout
      | some generated => exact .succeeded _ generated costUsd _ _ hex hout rfl rfl

@[simp] theorem task_record_editorNode (send : Send) (i : BranchInput) :
    (editorNode send i).record.task = send.currentTask := by
  have hpass := editorNode_pass send i
  generalize editorNode send i = r at hpass ⊢
  cases hpass <;> rfl

/-- A branch that comes back writes its task, its result and its delta. -/
theorem editorNode_update {send : Send} {i : BranchInput} {u : Update}
    (h : (editorNode send i).update = .ok u) :
    u = { tasks := some [(editorNode send i).record.after]
          editorResults := (editorNode send i).record.results
          budgetDeltas := (editorNode send i).record.costs
          errorLog := u.errorLog } := by
  have hpass := editorNode_pass send i
  generalize hr : editorNode send i = r at h hpass
  cases hpass with
  | crashed => cases h
  | _ =>
    cases h
    rfl

/-! ### All branches -/

theorem mem_arrivalOrder {sends : List Send} {arrivals : List (ℕ × BranchInput)}
    {b : Send × BranchInput} (h : b ∈ arrivalOrder sends arrivals) :
    b.1 ∈ sends ∧ ∃ k, (k, b.2) ∈ arrivals := by
  simp only [arrivalOrder, List.mem_filterMap, Option.map_eq_some_iff] at h
  obtain ⟨a, ha, send, hsend, rfl⟩ := h
  exact ⟨List.mem_of_getElem? hsend, a.1, ha⟩

/-- Every send has exactly one branch. -/
theorem perm_arrivalOrder {sends : List Send} {arrivals : List (ℕ × BranchInput)}
    (h : (arrivals.map Prod.fst).Perm (List.range sends.length)) :
    ((arrivalOrder sends arrivals).map Prod.fst).Perm sends := by
  have hsends : (arrivalOrder sends arrivals).map Prod.fst =
      (arrivals.map Prod.fst).filterMap fun k => sends[k]? := by
    simp [arrivalOrder, List.map_filterMap, List.filterMap_map, Function.comp_def]
  have hrange : ∀ xs : List Send, (List.range xs.length).filterMap (fun k => xs[k]?) = xs := by
    intro xs
    induction xs with
    | nil => rfl
    | cons x xs ih => simp [List.range_succ_eq_map, List.filterMap_map, ih]
  rw [hsends]
  simpa [hrange] using h.filterMap fun k => sends[k]?

@[simp] theorem records_runWave (branches : List (Send × BranchInput)) :
    (runWave branches).2 = branches.map fun b => (editorNode b.1 b.2).record := by
  simp [runWave]

theorem runWave_cons {b : Send × BranchInput} {branches : List (Send × BranchInput)}
    {updates : List Update} (h : (runWave (b :: branches)).1 = .ok updates) :
    ∃ u us, (editorNode b.1 b.2).update = .ok u ∧ (runWave branches).1 = .ok us ∧
      updates = u :: us := by
  simp only [runWave, List.map_cons, List.mapM_cons, bind, Except.bind, pure, Except.pure] at h ⊢
  cases hu : (editorNode b.1 b.2).update with
  | error exc => simp [hu] at h
  | ok u =>
    cases hus : (branches.map fun b => editorNode b.1 b.2).mapM NodeResult.update with
    | error exc => simp [hu, hus] at h
    | ok us =>
      simp only [hu, hus, Except.ok.injEq] at h
      exact ⟨u, us, rfl, rfl, h.symm⟩

/-- The state after a wave, from its records. -/
def GraphState.afterWave (s : GraphState) (records : List BranchRecord) (log : List String) :
    GraphState :=
  { s with
    tasks := upsertAll MigrationTask.id s.tasks (records.map BranchRecord.after)
    editorResults := s.editorResults ++ records.flatMap BranchRecord.results
    budgetDeltas := s.budgetDeltas ++ records.flatMap BranchRecord.costs
    errorLog := s.errorLog ++ log }

theorem applyAll_wave {s : GraphState} {branches : List (Send × BranchInput)}
    {updates : List Update} (hnd : (s.tasks.map MigrationTask.id).Nodup)
    (h : (runWave branches).1 = .ok updates) :
    ∃ log, s.applyAll updates = s.afterWave (runWave branches).2 log := by
  induction branches generalizing s updates with
  | nil =>
    cases h
    exact ⟨[], by simp [GraphState.afterWave]⟩
  | cons b branches ih =>
    obtain ⟨u, us, hu, hus, rfl⟩ := runWave_cons h
    have hform := editorNode_update hu
    have hstep : s.apply u = s.afterWave [(editorNode b.1 b.2).record] u.errorLog := by
      rw [hform]
      simp [GraphState.apply, GraphState.afterWave, mergeTaskLists_of_nodup hnd]
    have hnd' : ((s.apply u).tasks.map MigrationTask.id).Nodup := by
      rw [hstep]
      exact nodup_keys_upsertAll hnd _
    obtain ⟨log, hlog⟩ := ih hnd' hus
    refine ⟨u.errorLog ++ log, ?_⟩
    rw [GraphState.applyAll_cons, hlog, hstep]
    simp [GraphState.afterWave]

end StackMigrate
