import StackMigrate.Properties.Publication

/-!
# What a pull request leaves out

`NO_READY_TASKS` stands for "everything is done" and for "the rest is escalated or
blocked". A task that is left behind when the sandbox is entered stays behind for the
rest of the run.
-/

namespace StackMigrate

/-! ### Tasks that stay behind -/

/-- A set of ids whose tasks can no longer succeed: none has, and each that is open waits
for a member or for an id that is no task. -/
structure LeftBehind (s : GraphState) (B : Set String) : Prop where
  planned : ∃ t ∈ s.tasks, t.id ∈ B
  unfinished : ∀ t ∈ s.tasks, t.id ∈ B → t.status ≠ .succeeded
  stuck : ∀ t ∈ s.tasks, t.id ∈ B → t.isOpen = true →
    ∃ dep ∈ t.dependsOnTaskIds, dep ∈ B ∨ dep ∉ s.tasks.map MigrationTask.id

def HasLeftBehind (c : Snapshot) : Prop := ∃ B, LeftBehind c.state B

theorem leftBehind_of_nothingReady {s : GraphState} (hnd : (s.tasks.map MigrationTask.id).Nodup)
    (hready : getReadyTasks s.tasks = []) (hsome : ∃ t ∈ s.tasks, t.status ≠ .succeeded) :
    LeftBehind s {id | ∃ t ∈ s.tasks, t.id = id ∧ t.status ≠ .succeeded} := by
  obtain ⟨t₀, ht₀, hst₀⟩ := hsome
  refine ⟨⟨t₀, ht₀, t₀, ht₀, rfl, hst₀⟩, ?_, ?_⟩
  · rintro t ht ⟨t', ht', hid, hst⟩
    have hsame : t' = t := eq_of_id_eq hnd ht' ht hid
    exact hsame ▸ hst
  · intro t ht _ hopen
    have hnot : t ∉ getReadyTasks s.tasks := by simp [hready]
    rw [mem_getReadyTasks] at hnot
    push Not at hnot
    obtain ⟨dep, hdep, hstatus⟩ := hnot ht hopen
    refine ⟨dep, hdep, ?_⟩
    by_cases hmem : dep ∈ s.tasks.map MigrationTask.id
    · obtain ⟨d, hd, rfl⟩ := List.mem_map.mp hmem
      left
      refine ⟨d, hd, rfl, ?_⟩
      intro hsucceeded
      exact hstatus ((statusById_eq_some hnd).mpr ⟨d, hd, rfl, hsucceeded⟩)
    · exact Or.inr hmem

/-- A member of the set is never dispatched. -/
theorem LeftBehind.notMem_nextWave {s : GraphState} {B : Set String} (h : LeftBehind s B)
    (hnd : (s.tasks.map MigrationTask.id).Nodup) {t : MigrationTask} (ht : t ∈ s.tasks)
    (hB : t.id ∈ B) : t ∉ nextWave s := by
  intro hwave
  obtain ⟨hopen, hdeps⟩ := ready_of_mem_nextWave hwave
  obtain ⟨dep, hdep, hstuck⟩ := h.stuck t ht hB hopen
  obtain ⟨d, hd, hid, hsucceeded⟩ := (statusById_eq_some hnd).mp (hdeps dep hdep)
  rcases hstuck with hmember | hdangling
  · exact h.unfinished d hd (hid ▸ hmember) hsucceeded
  · exact hdangling (List.mem_map.mpr ⟨d, hd, hid⟩)

theorem LeftBehind.superstep [UnicodeData] {c c' : Snapshot} {i : Input} {B : Set String}
    (h : LeftBehind c.state B) (hp : Placed c.state c.next) (hstep : Superstep c i c') :
    LeftBehind c'.state B := by
  have hplanned : c.next ≠ .node .synthesis := by
    intro hnext
    obtain ⟨t, ht, -⟩ := h.planned
    rw [hp.unplanned (Or.inr hnext)] at ht
    cases ht
  obtain ⟨f, htasks, hmoves⟩ := tasks_moved hp hstep hplanned
  have hids := ids_moved htasks hmoves
  have hmember : ∀ t ∈ c.state.tasks, (f t).id ∈ B → t.id ∈ B ∧
      (f t).status ≠ .succeeded ∧ ((f t).isOpen = true → t.isOpen = true) := by
    intro t ht hB
    have hmove := hmoves t ht
    rw [hmove.id_eq] at hB
    have hnot := h.notMem_nextWave hp.nodup ht hB
    have hst := h.unfinished t ht hB
    refine ⟨hB, ?_⟩
    generalize f t = t' at hmove
    cases hmove with
    | kept => exact ⟨hst, id⟩
    | dispatched r _ hwave => exact absurd hwave hnot
    | escalated hsucceeded => exact absurd hsucceeded hst
    | blamed _ _ hsucceeded => exact absurd hsucceeded hst
    | aborted => exact ⟨by simp, by simp [MigrationTask.isOpen]⟩
  refine ⟨?_, ?_, ?_⟩
  · obtain ⟨t, ht, hB⟩ := h.planned
    refine ⟨f t, ?_, (hmoves t ht).id_eq ▸ hB⟩
    rw [htasks]
    exact List.mem_map_of_mem ht
  · intro t' ht' hB
    rw [htasks] at ht'
    obtain ⟨t, ht, rfl⟩ := List.mem_map.mp ht'
    exact (hmember t ht hB).2.1
  · intro t' ht' hB hopen
    rw [htasks] at ht'
    obtain ⟨t, ht, rfl⟩ := List.mem_map.mp ht'
    obtain ⟨hB', -, hopen'⟩ := hmember t ht hB
    rw [hids, (hmoves t ht).dependsOnTaskIds_eq]
    exact h.stuck t ht hB' (hopen' hopen)

/-! ### The statuses of a run -/

/-- The statuses the graph ever writes; `FAILED` and `IN_PROGRESS` are not among them. -/
def TaskStatus.written : TaskStatus → Bool
  | pending | succeeded | retrying | skipped | needsHuman => true
  | inProgress | failed => false

theorem written_of_move {s : GraphState} {t t' : MigrationTask} (h : TaskMove s t t')
    (ht : t.status.written = true) : t'.status.written = true := by
  cases h with
  | kept => exact ht
  | dispatched r htask =>
    subst htask
    unfold BranchRecord.after failedTask
    split
    · rfl
    · dsimp only
      split <;> rfl
    · rfl
    · exact ht
  | escalated => rfl
  | blamed =>
    unfold blamedTask
    dsimp only
    split <;> rfl
  | aborted => rfl

theorem written_superstep [UnicodeData] {c c' : Snapshot} {i : Input}
    (hp : Placed c.state c.next) (h : Superstep c i c')
    (hall : ∀ t ∈ c.state.tasks, t.status.written = true) :
    ∀ t ∈ c'.state.tasks, t.status.written = true := by
  by_cases hplanned : c.next = .node .synthesis
  · cases h with
    | raised => exact hall
    | synthesis _ hpass =>
      cases hpass with
      | noPlan => exact hall
      | planned comprehension =>
        intro t ht
        rcases mem_of_mem_mergeTaskLists ht with ht | ht
        · exact hall t ht
        · rw [status_runSynthesis ht]
          rfl
    | _ => simp_all
  · obtain ⟨f, htasks, hmoves⟩ := tasks_moved hp h hplanned
    intro t' ht'
    rw [htasks] at ht'
    obtain ⟨t, ht, rfl⟩ := List.mem_map.mp ht'
    exact written_of_move (hmoves t ht) (hall t ht)

/-! ### From the sandbox to the publisher -/

/-- The places a run visits between a passing sandbox visit and its end. -/
def Next.isShipping : Next → Bool
  | .node .aggregate | .node .requestApproval | .node .approvalGate | .paused
  | .node .prPublish => true
  | _ => false

theorem not_isShipping_of_dispatched {noReadyTasks next : Next} {gate : GateReadings}
    {s : GraphState} (h : Dispatched noReadyTasks gate s next)
    (hedge : noReadyTasks = .node .sandboxTest ∨ noReadyTasks = .finished) :
    next.isShipping = false := by
  rcases next_of_dispatched hedge h with ⟨sends, rfl⟩ | rfl | rfl | rfl <;> rfl

theorem ne_prPublish_of_isReview {event : Event} (h : event.isReview = false)
    (branch : PublishOutcome) : event ≠ .prPublish branch := by
  rintro rfl
  cases h

section Shipping

variable [UnicodeData] {ok : Snapshot → Input → Snapshot → Prop} {config : MigrationRunConfig}
  {limits : BudgetLimits} {maxRetryRounds : ℤ} {startedAt : ℚ} {inputs : List Input}
  {c : Snapshot} {P : List MigrationTask → Prop}

theorem shipping_superstep {c' : Snapshot} {i : Input} (hs' : Stage c'.state c'.trace c'.next)
    (hentry : c.next = .node .sandboxTest → P c.state.tasks)
    (hship : c.next.isShipping = true → P c.state.tasks) (h : Superstep c i c') :
    (c'.next.isShipping = true → P c'.state.tasks) ∧
      ∀ branch, .prPublish branch ∈ c'.trace → P c'.state.tasks := by
  -- a publication in the trace is the event of this very step
  have hlast : ∀ branch, .prPublish branch ∈ c'.trace →
      ∃ earlier, c'.trace = .prPublish branch :: earlier := by
    intro branch hmem
    obtain ⟨-, earlier, htrace, -⟩ := published_of_mem hs' hmem
    exact ⟨earlier, htrace⟩
  have hother : ∀ event, c'.trace = event :: c.trace → event.isReview = false →
      ∀ branch, .prPublish branch ∈ c'.trace → P c'.state.tasks := by
    intro event htrace hreview branch hmem
    obtain ⟨earlier, hearlier⟩ := hlast branch hmem
    rw [htrace] at hearlier
    exact absurd (List.cons.inj hearlier).1 (ne_prPublish_of_isReview hreview branch)
  cases h with
  | raised hraising =>
    exact ⟨by simp [Next.isShipping], hother _ rfl (isReview_of_raising hraising)⟩
  | comprehension _ hpass =>
    refine ⟨?_, hother _ rfl (isReview_of_comprehension hpass)⟩
    simp only [Snapshot.moved_next, routeAfterComprehension]
    split <;> simp [Next.isShipping]
  | synthesis _ _ hroute =>
    have hno := not_isShipping_of_dispatched (dispatched_of_dispatch hroute) (Or.inl rfl)
    exact ⟨by simp [hno], hother _ rfl rfl⟩
  | wave => exact ⟨by simp [Next.isShipping], hother _ rfl rfl⟩
  | budgetReconcile _ hroute =>
    have hno := not_isShipping_of_dispatched (dispatched_of_dispatch hroute) (Or.inl rfl)
    exact ⟨by simp [hno], hother _ rfl rfl⟩
  | sandboxTest hnext hpass =>
    have htasks := hentry hnext
    exact ⟨fun _ => by cases hpass <;> exact htasks, hother _ rfl (isReview_of_sandbox hpass)⟩
  | errorAnalysis _ hpass hroute =>
    have hno := not_isShipping_of_dispatched (dispatched_of_dispatch hroute) (Or.inr rfl)
    exact ⟨by simp [hno], hother _ rfl (isReview_of_analysis hpass)⟩
  | aggregate hnext hpass =>
    have htasks := hship (by rw [hnext]; rfl)
    exact ⟨fun _ => by cases hpass <;> exact htasks, hother _ rfl rfl⟩
  | requestApproval hnext => exact ⟨fun _ => hship (by rw [hnext]; rfl), hother _ rfl rfl⟩
  | approvalGate hnext =>
    refine ⟨fun _ => hship (by rw [hnext]; rfl), ?_⟩
    intro branch hmem
    obtain ⟨earlier, hearlier⟩ := hlast branch hmem
    cases (List.cons.inj hearlier).1
  | resume hnext hpass =>
    have htasks := hship (by rw [hnext]; rfl)
    refine ⟨fun _ => by cases hpass <;> exact htasks, ?_⟩
    intro branch hmem
    obtain ⟨earlier, hearlier⟩ := hlast branch hmem
    cases (List.cons.inj hearlier).1
  | prPublish hnext hpass =>
    have htasks := hship (by rw [hnext]; rfl)
    exact ⟨by simp [Next.isShipping], fun _ _ => by cases hpass <;> exact htasks⟩
  | budgetAbort => exact ⟨by simp [Next.isShipping], hother _ rfl rfl⟩

/-- What holds of the task list at every entry into the sandbox holds of it when the
publisher is called. -/
theorem shipped_of_run
    (hrun : graph.RunWhere ok (initial config limits maxRetryRounds startedAt) inputs c)
    (hentry : ∀ c i c', Placed c.state c.next → ok c i c' → c.next = .node .sandboxTest →
      P c.state.tasks)
    {branch : PublishOutcome} (hpublished : .prPublish branch ∈ c.trace) : P c.state.tasks := by
  have hboth : (c.next.isShipping = true → P c.state.tasks) ∧
      ∀ branch, .prPublish branch ∈ c.trace → P c.state.tasks := by
    refine hrun.invariant_under (J := fun c => (c.next.isShipping = true → P c.state.tasks) ∧
      ∀ branch, .prPublish branch ∈ c.trace → P c.state.tasks)
      (I := fun c => Placed c.state c.next ∧ Stage c.state c.trace c.next)
      (fun h => ⟨placed_of_run h, stage_of_run h.run⟩) ?_ ?_
    · exact ⟨by simp [initial, Next.isShipping], by simp [initial]⟩
    · rintro c i c' ⟨hp, hs⟩ ⟨hship, -⟩ hstep hok
      have h := superstep_of_step hstep
      exact shipping_superstep (stage_superstep hp hs h) (hentry c i c' hp hok) hship h
  exact hboth.2 branch hpublished

end Shipping

/-! ### What is left out, and when nothing is -/

/-- Whenever the run enters the sandbox, every planned task has succeeded. -/
def DoneAtSandbox (c : Snapshot) (_ : Input) (_ : Snapshot) : Prop :=
  c.next = .node .sandboxTest → ∀ t ∈ c.state.tasks, t.status = .succeeded

section Complete

variable [UnicodeData] {config : MigrationRunConfig} {limits : BudgetLimits} {maxRetryRounds : ℤ}
  {startedAt : ℚ} {inputs : List Input} {c : Snapshot}

theorem done_or_leftBehind
    (hrun : graph.Run (initial config limits maxRetryRounds startedAt) inputs c) :
    Placed c.state c.next ∧
      (graph.RunWhere DoneAtSandbox (initial config limits maxRetryRounds startedAt) inputs c ∨
        HasLeftBehind c) := by
  refine DrivenSystem.Run.runWhere_or (I := fun c => Placed c.state c.next) hrun
    (placed_initial _ _ _ _) ?_ ?_ ?_
  · intro c i c' hp hstep
    exact placed_superstep hp (superstep_of_step hstep)
  · intro c i c' hp hstep hviolation
    unfold DoneAtSandbox at hviolation
    push Not at hviolation
    obtain ⟨hnext, hsome⟩ := hviolation
    have hleft := leftBehind_of_nothingReady hp.nodup (hp.idle (Or.inl hnext)) hsome
    exact ⟨_, hleft.superstep hp (superstep_of_step hstep)⟩
  · rintro c i c' hp hstep ⟨B, hleft⟩
    exact ⟨B, hleft.superstep hp (superstep_of_step hstep)⟩

/-- A published run is complete exactly if the sandbox was never entered with a task
escalated, skipped or blocked. -/
theorem all_succeeded_iff
    (hrun : graph.Run (initial config limits maxRetryRounds startedAt) inputs c)
    {branch : PublishOutcome} (hpublished : .prPublish branch ∈ c.trace) :
    (∀ t ∈ c.state.tasks, t.status = .succeeded) ↔
      graph.RunWhere DoneAtSandbox (initial config limits maxRetryRounds startedAt) inputs c := by
  constructor
  · intro hall
    rcases (done_or_leftBehind hrun).2 with hdone | ⟨B, hleft⟩
    · exact hdone
    · obtain ⟨t, ht, hB⟩ := hleft.planned
      exact absurd (hall t ht) (hleft.unfinished t ht hB)
  · intro hdone
    exact shipped_of_run (P := fun tasks => ∀ t ∈ tasks, t.status = .succeeded) hdone
      (fun _ _ _ _ hok hnext => hok hnext) hpublished

theorem nothingReady_when_published
    (hrun : graph.Run (initial config limits maxRetryRounds startedAt) inputs c)
    {branch : PublishOutcome} (hpublished : .prPublish branch ∈ c.trace) :
    getReadyTasks c.state.tasks = [] :=
  shipped_of_run (P := fun tasks => getReadyTasks tasks = []) hrun
    (fun _ _ _ hp _ hnext => hp.idle (Or.inl hnext)) hpublished

theorem written_of_run
    (hrun : graph.Run (initial config limits maxRetryRounds startedAt) inputs c) :
    ∀ t ∈ c.state.tasks, t.status.written = true := by
  refine hrun.invariant_under (J := fun c => ∀ t ∈ c.state.tasks, t.status.written = true)
    placed_of_run (by simp [initial]) ?_
  intro c i c' hp hall hstep _
  exact written_superstep hp (superstep_of_step hstep) hall

/-- What a published migration may leave out: escalated tasks, skipped ones, and open
ones behind a dependency that has not succeeded. It ships the latest attempt of every
task that has succeeded and nothing else, and it is complete exactly if the sandbox was
never entered with anything left behind. -/
theorem published_leaves_out_only_closed_tasks
    (hrun : graph.Run (initial config limits maxRetryRounds startedAt) inputs c)
    {call : PublishCall} {later earlier : List Event}
    (hcall : c.trace = later ++ .prPublish (.called call) :: earlier) :
    (∀ t ∈ c.state.tasks, t.status ≠ .succeeded →
        t.status = .needsHuman ∨ t.status = .skipped ∨
          ∃ dep ∈ t.dependsOnTaskIds, statusById c.state.tasks dep ≠ some .succeeded) ∧
      (∀ d ∈ call.files, ∃ r ∈ latestResultsByTask c.state.editorResults,
        d ∈ r.diffs ∧ r.taskId ∈ succeededIds c.state.tasks) ∧
      (∀ r ∈ latestResultsByTask c.state.editorResults, r.taskId ∈ succeededIds c.state.tasks →
        ∀ d ∈ r.diffs, d.path ∈ call.files.map FileDiff.path) ∧
      ((∀ t ∈ c.state.tasks, t.status = .succeeded) ↔
        graph.RunWhere DoneAtSandbox (initial config limits maxRetryRounds startedAt) inputs
          c) := by
  have hmem : Event.prPublish (.called call) ∈ c.trace := by simp [hcall]
  obtain ⟨-, -, -, hfiles⟩ := published_of_split (stage_of_run hrun) hcall
  have hready := nothingReady_when_published hrun hmem
  refine ⟨?_, ?_, ?_, all_succeeded_iff hrun hmem⟩
  · intro t ht hst
    have hwritten := written_of_run hrun t ht
    have hnot : t ∉ getReadyTasks c.state.tasks := by simp [hready]
    rw [mem_getReadyTasks] at hnot
    push Not at hnot
    have hblocked := hnot ht
    rw [MigrationTask.isOpen_iff] at hblocked
    cases hstatus : t.status with
    | pending => exact Or.inr (Or.inr (hblocked (Or.inl hstatus)))
    | retrying => exact Or.inr (Or.inr (hblocked (Or.inr hstatus)))
    | succeeded => exact absurd hstatus hst
    | needsHuman => exact Or.inl rfl
    | skipped => exact Or.inr (Or.inl rfl)
    | inProgress => simp [hstatus, TaskStatus.written] at hwritten
    | failed => simp [hstatus, TaskStatus.written] at hwritten
  · intro d hd
    rw [hfiles] at hd
    obtain ⟨r, hr, hdiff⟩ := List.mem_flatMap.mp (KeyedList.mem_of_mem_collect hd)
    obtain ⟨hlatest, hsucceeded⟩ := List.mem_filter.mp hr
    exact ⟨r, hlatest, hdiff, by simpa using hsucceeded⟩
  · intro r hr hsucceeded d hd
    rw [hfiles, effectiveDiffs, KeyedList.mem_keys_collect]
    refine List.mem_map.mpr ⟨d, List.mem_flatMap.mpr ⟨r, ?_, hd⟩, rfl⟩
    exact List.mem_filter.mpr ⟨hr, by simpa using hsucceeded⟩

end Complete

section Partial

attribute [local instance] asciiTables

/-- The generator never gets the second service right; without approval, the first one is
published on its own. -/
def partialRun : List Input :=
  planServices [serviceFile "OrderService" [], serviceFile "StockService" []] ++
    [.editors [(0, writesAt 0 "app/services/order_service.py"), (1, failsAt 0)],
      .budgetReconcile (gateAt 0), .editors [(0, failsAt 0)], .budgetReconcile (gateAt 0),
      .editors [(0, failsAt 0)], .budgetReconcile (gateAt 0), .editors [(0, failsAt 0)],
      .budgetReconcile (gateAt 0), suite .passed, .aggregate, .prPublish (.ok demoPullRequest)]

theorem partial_migration_is_published :
    ∃ (c : Snapshot) (call : PublishCall) (earlier : List Event),
      graph.Run (initial unattendedConfig demoLimits 5 0) partialRun c ∧
        c.trace = .prPublish (.called call) :: earlier ∧
        ∃ t ∈ c.state.tasks, t.status = .needsHuman := by
  have hreplay : (replay (initial unattendedConfig demoLimits 5 0) partialRun).any
      (fun c => endsPublishing c && c.state.tasks.any fun t => t.status = .needsHuman) =
      true := by decide +kernel
  obtain ⟨c, hrun, hend⟩ := exists_run_of_replay hreplay
  simp only [Bool.and_eq_true, List.any_eq_true, decide_eq_true_eq] at hend
  obtain ⟨call, earlier, htrace⟩ := trace_of_endsPublishing hend.1
  exact ⟨c, call, earlier, hrun, htrace, hend.2⟩

theorem published_leaves_out_only_closed_tasks_partialRun :
    ∃ (c : Snapshot) (call : PublishCall) (earlier : List Event),
      c.trace = [] ++ .prPublish (.called call) :: earlier ∧
        ∀ t ∈ c.state.tasks, t.status ≠ .succeeded →
          t.status = .needsHuman ∨ t.status = .skipped ∨
            ∃ dep ∈ t.dependsOnTaskIds, statusById c.state.tasks dep ≠ some .succeeded := by
  have hreplay : (replay (initial unattendedConfig demoLimits 5 0) partialRun).any
      endsPublishing = true := by decide +kernel
  obtain ⟨c, hrun, hends⟩ := exists_run_of_replay hreplay
  obtain ⟨call, earlier, htrace⟩ := trace_of_endsPublishing hends
  have hcall : c.trace = [] ++ .prPublish (.called call) :: earlier := htrace
  exact ⟨c, call, earlier, hcall, (published_leaves_out_only_closed_tasks hrun hcall).1⟩

end Partial

end StackMigrate
