import StackMigrate.Graph.Ledger
import StackMigrate.Properties.NewestCode
import Mathlib.Data.List.Perm.Basic

/-!
# The order of a wave

The branches of one wave write different tasks, so the reducers may fold them in any order.
Lists that remember the order differ; what the routers read does not.
-/

namespace StackMigrate

open KeyedList

/-! ### Folding in any order -/

/-- Single calls may be recorded in any order. -/
theorem BudgetState.recordAll_perm (b : BudgetState) {costs costs' : List ℚ}
    (h : costs.Perm costs') : b.recordAll costs = b.recordAll costs' := by
  refine h.foldl_eq' ?_ b
  intro x _ y _ b'
  simp [BudgetState.recordCall, add_right_comm, max_right_comm]

theorem perm_records {sends : List Send} {arrivals arrivals' : List (ℕ × BranchInput)}
    (h : arrivals.Perm arrivals') :
    (runWave (arrivalOrder sends arrivals)).2.Perm (runWave (arrivalOrder sends arrivals')).2 := by
  rw [records_runWave, records_runWave]
  exact (h.filterMap _).map _

/-- The results of a wave carry different ids. -/
theorem nodup_results {records : List BranchRecord}
    (hnd : (records.map fun r => r.task.id).Nodup) (htagged : ∀ r ∈ records, r.Tagged) :
    ((records.flatMap BranchRecord.results).map EditorResult.taskId).Nodup := by
  have hsublist : ((records.flatMap BranchRecord.results).map EditorResult.taskId).Sublist
      (records.map fun r => r.task.id) := by
    clear hnd
    induction records with
    | nil => exact List.Sublist.slnil
    | cons r rest ih =>
      have hrest := ih fun r' hr' => htagged r' (List.mem_cons_of_mem _ hr')
      rw [List.flatMap_cons, List.map_append, List.map_cons]
      have hone : (r.results.map EditorResult.taskId).Sublist [r.task.id] := by
        have htag := htagged r List.mem_cons_self
        cases hout : r.outcome with
        | succeeded result costUsd =>
          have hid : result.taskId = r.task.id := htag result (by simp [BranchRecord.results, hout])
          simp [BranchRecord.results, hout, hid]
        | _ => simp [BranchRecord.results, hout]
      exact hone.append hrest
  exact hnd.sublist hsublist

/-! ### A wave and its reconciliation -/

section Steps

variable [UnicodeData] {c c₁ c₂ : Snapshot} {sends : List Send}
  {arrivals : List (ℕ × BranchInput)} {gate : GateReadings}

/-- What a wave and the reconciliation behind it leave, from the records of the wave. -/
structure Joined (c c₂ : Snapshot) (records : List BranchRecord) : Prop where
  dispatched : (records.map BranchRecord.task).Perm (nextWave c.state)
  tagged : ∀ r ∈ records, r.Tagged
  config : c₂.state.config = c.state.config
  comprehension : c₂.state.comprehension = c.state.comprehension
  tasks : c₂.state.tasks = c.state.tasks.map (replaced (records.map BranchRecord.after))
  merged : ∀ r ∈ records, replaced (records.map BranchRecord.after) r.task = r.after
  results : c₂.state.editorResults =
    c.state.editorResults ++ records.flatMap BranchRecord.results
  budget : c₂.state.budget = c.state.budget.recordAll (records.flatMap BranchRecord.costs)
  deltas : c₂.state.budgetDeltas = c.state.budgetDeltas ++ records.flatMap BranchRecord.costs
  consumed : c₂.state.budgetDeltasConsumed = c₂.state.budgetDeltas.length

theorem joined_of_steps (hc : Books c) (hnext : c.next = .editors sends)
    (hwave : Superstep c (.editors arrivals) c₁)
    (hreconcile : Superstep c₁ (.budgetReconcile gate) c₂) :
    c₁.trace = .wave (runWave (arrivalOrder sends arrivals)).2 :: c.trace ∧
      dispatch (.node .sandboxTest) gate c₂.state = .ok c₂.next ∧
      Joined c c₂ (runWave (arrivalOrder sends arrivals)).2 := by
  have hc₁ := hc.superstep hwave
  obtain ⟨_, hinput, harrivals, htrace, hraised | ⟨hnext₁, updates, log, -, hstate⟩⟩ :=
    superstep_of_editors hc.placed hnext hwave
  · obtain ⟨-, exc, hexc, -⟩ := hraised
    exact absurd hexc (next_ne_raised hreconcile)
  · cases hinput
    obtain ⟨_, hinput', -, hroute, hstate₂⟩ := hc₁.reconciled hnext₁ hreconcile
    cases hinput'
    rw [hstate] at hroute hstate₂
    obtain ⟨htasks, hmerged, -⟩ := tasks_afterWave hc.placed hnext harrivals log
    have hcharged := hc.charged (by simp [hnext])
    set records := (runWave (arrivalOrder sends arrivals)).2 with hrecords
    have hdrop : (c.state.afterWave records log).budgetDeltas.drop
        (c.state.afterWave records log).budgetDeltasConsumed =
          records.flatMap BranchRecord.costs := by
      rw [GraphState.afterWave, hcharged, List.drop_left]
    refine ⟨htrace, hstate₂ ▸ hroute, records_perm_nextWave hc.placed hnext harrivals,
      fun r hr => tagged_of_mem_runWave hr, ?_, ?_, ?_, hmerged, ?_, ?_, ?_, ?_⟩
    all_goals rw [hstate₂]
    · rfl
    · rfl
    · exact htasks
    · exact List.append_nil _
    · rw [GraphState.reconciled, hdrop]
      rfl
    · exact List.append_nil _
    · simp [GraphState.reconciled]

namespace Joined

omit [UnicodeData]

variable {c₂' : Snapshot} {records records' : List BranchRecord}

theorem nodup_records (h : Joined c c₂ records) (hp : Placed c.state c.next) :
    (records.map fun r => r.task.id).Nodup := by
  have hperm := h.dispatched.map MigrationTask.id
  rw [List.map_map] at hperm
  exact hperm.nodup_iff.mpr (nodup_nextWave hp.nodup)

/-- What a branch returned is in the list. -/
theorem mem_tasks (h : Joined c c₂ records) {r : BranchRecord} (hr : r ∈ records) :
    r.after ∈ c₂.state.tasks := by
  have hwave := h.dispatched.mem_iff.mp (List.mem_map_of_mem hr)
  rw [h.tasks, ← h.merged r hr]
  exact List.mem_map_of_mem (mem_tasks_of_mem_nextWave hwave)

theorem latest (h : Joined c c₂ records) (id : String) :
    lookup EditorResult.taskId (latestResultsByTask c₂.state.editorResults) id =
      (last EditorResult.taskId (records.flatMap BranchRecord.results) id).or
        (last EditorResult.taskId c.state.editorResults id) := by
  rw [latestResultsByTask, lookup_collect, h.results, last_append]

/-- What a branch generated is the latest result of its task. -/
theorem latest_of_mem (h : Joined c c₂ records) (hp : Placed c.state c.next) {r : BranchRecord}
    (hr : r ∈ records) {result : EditorResult} (hresult : result ∈ r.results) :
    lookup EditorResult.taskId (latestResultsByTask c₂.state.editorResults) r.task.id =
      some result := by
  have hnd := nodup_results (h.nodup_records hp) h.tagged
  have hmem : result ∈ records.flatMap BranchRecord.results :=
    List.mem_flatMap.mpr ⟨r, hr, hresult⟩
  rw [h.latest, ← h.tagged r hr result hresult, last_of_nodup hnd hmem]
  rfl

/-- Two orders of one wave agree on everything a router reads. -/
theorem eq_of_perm (h : Joined c c₂ records) (h' : Joined c c₂' records')
    (hp : Placed c.state c.next) (hperm : records.Perm records') :
    c₂.state.tasks = c₂'.state.tasks ∧ c₂.state.budget = c₂'.state.budget ∧
      c₂.state.budgetDeltasConsumed = c₂'.state.budgetDeltasConsumed ∧
      ∀ id, lookup EditorResult.taskId (latestResultsByTask c₂.state.editorResults) id =
        lookup EditorResult.taskId (latestResultsByTask c₂'.state.editorResults) id := by
  have hcosts := List.Perm.flatMap_right BranchRecord.costs hperm
  have hresults := List.Perm.flatMap_right BranchRecord.results hperm
  have hids : ((records.map BranchRecord.after).map MigrationTask.id).Nodup := by
    simpa [Function.comp_def] using h.nodup_records hp
  refine ⟨?_, ?_, ?_, fun id => ?_⟩
  · rw [h.tasks, h'.tasks]
    refine List.map_congr_left fun t _ => ?_
    rw [replaced, replaced, last_perm hids (hperm.map _)]
  · rw [h.budget, h'.budget, BudgetState.recordAll_perm _ hcosts]
  · rw [h.consumed, h'.consumed, h.deltas, h'.deltas, List.length_append, List.length_append,
      hcosts.length_eq]
  · rw [h.latest, h'.latest, last_perm (nodup_results (h.nodup_records hp) h.tagged) hresults]

end Joined

omit [UnicodeData] in
/-- The gate reads the tasks, the budget and the context of the sends. -/
theorem routeToEditors_congr {s s' : GraphState} (htasks : s.tasks = s'.tasks)
    (hbudget : s.budget = s'.budget) (hconfig : s.config = s'.config)
    (hcomprehension : s.comprehension = s'.comprehension) (gate : GateReadings) :
    routeToEditors s gate = routeToEditors s' gate := by
  simp only [routeToEditors, sendsFor, htasks, hbudget, hconfig, hcomprehension]

end Steps

section Runs

variable [UnicodeData] {config : MigrationRunConfig} {limits : BudgetLimits} {maxRetryRounds : ℤ}
  {startedAt : ℚ} {inputs : List Input} {c c₁ c₁' c₂ c₂' : Snapshot} {sends : List Send}
  {arrivals arrivals' : List (ℕ × BranchInput)} {gate : GateReadings}

/-- Behind the reconciliation it makes no difference in which order the branches of a wave
were merged, and whatever the order, no status, result or cost of a branch is lost. -/
theorem wave_order_is_irrelevant
    (hrun : graph.Run (initial config limits maxRetryRounds startedAt) inputs c)
    (hnext : c.next = .editors sends) (hperm : arrivals.Perm arrivals')
    (hwave : graph.step c (.editors arrivals) = some c₁)
    (hwave' : graph.step c (.editors arrivals') = some c₁')
    (hjoin : graph.step c₁ (.budgetReconcile gate) = some c₂)
    (hjoin' : graph.step c₁' (.budgetReconcile gate) = some c₂') :
    (c₂.state.tasks = c₂'.state.tasks ∧ c₂.state.budget = c₂'.state.budget ∧
        c₂.state.budgetDeltasConsumed = c₂'.state.budgetDeltasConsumed ∧
        ∀ id, lookup EditorResult.taskId (latestResultsByTask c₂.state.editorResults) id =
          lookup EditorResult.taskId (latestResultsByTask c₂'.state.editorResults) id) ∧
      (∀ readings, routeToEditors c₂.state readings = routeToEditors c₂'.state readings) ∧
      c₂.next = c₂'.next ∧
      ∃ records, c₁.trace = .wave records :: c.trace ∧
        (records.map BranchRecord.task).Perm (sends.map Send.currentTask) ∧
        (∀ r ∈ records, r.after ∈ c₂.state.tasks ∧ ∀ result ∈ r.results,
          lookup EditorResult.taskId (latestResultsByTask c₂.state.editorResults) r.task.id =
            some result) ∧
        c₂.state.budgetDeltas = c.state.budgetDeltas ++ records.flatMap BranchRecord.costs ∧
        c₂.state.budget = c.state.budget.recordAll (records.flatMap BranchRecord.costs) := by
  have hc := books_of_run hrun
  obtain ⟨htrace, hroute, h⟩ := joined_of_steps hc hnext (superstep_of_step hwave)
    (superstep_of_step hjoin)
  obtain ⟨-, hroute', h'⟩ := joined_of_steps hc hnext (superstep_of_step hwave')
    (superstep_of_step hjoin')
  have hsame := h.eq_of_perm h' hc.placed (perm_records hperm)
  have hgate : ∀ readings, routeToEditors c₂.state readings =
      routeToEditors c₂'.state readings := by
    intro readings
    exact routeToEditors_congr hsame.1 hsame.2.1 (h.config.trans h'.config.symm)
      (h.comprehension.trans h'.comprehension.symm) readings
  have hdispatch : (Except.ok c₂.next : Except PyException Next) = .ok c₂'.next := by
    rw [← hroute, ← hroute', dispatch, dispatch, hgate]
  have hsends : sends.map Send.currentTask = nextWave c.state := by
    rw [(hc.placed.wave sends hnext).1, currentTask_sendsFor]
  refine ⟨hsame, hgate, Except.ok.inj hdispatch, _, htrace, hsends ▸ h.dispatched, ?_, h.deltas,
    h.budget⟩
  intro r hr
  exact ⟨h.mem_tasks hr, fun result hresult => h.latest_of_mem hc.placed hr hresult⟩

end Runs

section Orders

attribute [local instance] asciiTables

/-- The snapshots behind a wave and behind its reconciliation. -/
def joinedWave (c : Snapshot) (arrivals : List (ℕ × BranchInput)) : Option (Snapshot × Snapshot) :=
  (step c (.editors arrivals)).bind fun c₁ =>
    (step c₁ (.budgetReconcile (gateAt 0))).map fun c₂ => (c₁, c₂)

theorem steps_of_joinedWave {c c₁ c₂ : Snapshot} {arrivals : List (ℕ × BranchInput)}
    (h : joinedWave c arrivals = some (c₁, c₂)) :
    step c (.editors arrivals) = some c₁ ∧ step c₁ (.budgetReconcile (gateAt 0)) = some c₂ := by
  simp only [joinedWave, Option.bind_eq_some_iff, Option.map_eq_some_iff, Prod.mk.injEq] at h
  obtain ⟨c₁, hwave, c₂, hjoin, rfl, rfl⟩ := h
  exact ⟨hwave, hjoin⟩

/-- Two branches of one wave: one writes its file, the other one fails. -/
def mixedArrivals : List (ℕ × BranchInput) :=
  [(0, writesAt 0 "app/services/order_service.py"), (1, failsAt 0)]

theorem wave_order_is_irrelevant_mixedArrivals :
    ∃ c c₁ c₁' c₂ c₂' : Snapshot, joinedWave c mixedArrivals = some (c₁, c₂) ∧
      joinedWave c mixedArrivals.reverse = some (c₁', c₂') ∧
      c₂.state.tasks = c₂'.state.tasks ∧ c₂.next = c₂'.next := by
  have hreplay : (replay (initial demoConfig demoLimits 5 0)
      (planServices [serviceFile "OrderService" [], serviceFile "StockService" []])).any
      (fun c => (joinedWave c mixedArrivals).isSome &&
        (joinedWave c mixedArrivals.reverse).isSome) = true := by decide +kernel
  obtain ⟨c, hrun, hboth⟩ := exists_run_of_replay hreplay
  rw [Bool.and_eq_true, Option.isSome_iff_exists, Option.isSome_iff_exists] at hboth
  obtain ⟨⟨⟨c₁, c₂⟩, h⟩, ⟨c₁', c₂'⟩, h'⟩ := hboth
  obtain ⟨hwave, hjoin⟩ := steps_of_joinedWave h
  obtain ⟨hwave', hjoin'⟩ := steps_of_joinedWave h'
  have hsends : ∃ sends, c.next = .editors sends := by
    cases hnext : c.next with
    | editors sends => exact ⟨sends, rfl⟩
    | _ => simp [step, hnext] at hwave
  obtain ⟨sends, hnext⟩ := hsends
  have hperm : mixedArrivals.Perm mixedArrivals.reverse := (List.reverse_perm _).symm
  obtain ⟨⟨htasks, -⟩, -, hsame, -⟩ :=
    wave_order_is_irrelevant hrun hnext hperm hwave hwave' hjoin hjoin'
  exact ⟨c, c₁, c₁', c₂, c₂', h, h', htasks, hsame⟩

end Orders

end StackMigrate
