import StackMigrate.Graph.Loop
import StackMigrate.Library.Blocking
import StackMigrate.Nodes.Plan
import StackMigrate.Properties.Completeness

/-!
# Cycles in the plan

Nothing between the extractor and the plan looks for cycles. The plan has one exactly if
the references between the extracted units lead around through several target files,
and then the tasks on it wait for each other to the end of the run.
-/

namespace StackMigrate

open Blocking

/-- The task with id `a` depends on the one with id `b`. -/
def TaskWaits (tasks : List MigrationTask) (a b : String) : Prop :=
  ∃ t ∈ tasks, t.id = a ∧ b ∈ t.dependsOnTaskIds

/-! ### The plan as a quotient -/

section Quotient

variable [UnicodeData]

/-- The task that migrates the unit. -/
def PendingUnit.taskId (pendingUnits : List PendingUnit) (pu : PendingUnit) : String :=
  (semanticUnit pendingUnits pu).taskId

/-- A unit of the task `a` refers to a unit of the other task `b`. -/
def UnitWaits (pendingUnits : List PendingUnit) (a b : String) : Prop :=
  a ≠ b ∧ ∃ pu ∈ pendingUnits, ∃ qu ∈ pendingUnits,
    pu.references pendingUnits qu ∧ pu.taskId pendingUnits = a ∧ qu.taskId pendingUnits = b

variable {pendingUnits : List PendingUnit} {usedIds : List String}

theorem mem_dependsOnUnitIds (h : Numbered pendingUnits usedIds) {pu qu : PendingUnit}
    (hqu : qu ∈ pendingUnits) :
    qu.assignedId ∈ (semanticUnit pendingUnits pu).dependsOnUnitIds ↔
      pu.references pendingUnits qu := by
  have hnd := h.nodup_map
  have hne : qu.assignedId ≠ "" := by
    refine h.nonempty _ ?_
    rw [← h.ids]
    exact List.mem_map_of_mem hqu
  simp only [semanticUnit, mem_resolveReferences, PendingUnit.references, nameToId,
    Option.map_eq_some_iff]
  constructor
  · rintro ⟨refName, hname, ⟨found, hfound, hid⟩, -, hother⟩
    have hsame : found = qu :=
      List.inj_on_of_nodup_map hnd (List.mem_of_find?_eq_some hfound) hqu hid
    exact ⟨refName, hname, hsame ▸ hfound, hother⟩
  · rintro ⟨refName, hname, hfound, hother⟩
    exact ⟨refName, hname, ⟨qu, hfound, rfl⟩, hne, hother⟩

/-- The plan depends exactly as the units refer to each other. -/
theorem taskWaits_iff (h : Numbered pendingUnits usedIds) {comprehension : ComprehensionResult}
    (hunits : comprehension.units = pendingUnits.map (semanticUnit pendingUnits)) (a b : String) :
    TaskWaits (runSynthesis comprehension) a b ↔ UnitWaits pendingUnits a b := by
  have hnd : (comprehension.units.map SemanticUnit.id).Nodup := by
    have hids : comprehension.units.map SemanticUnit.id =
        pendingUnits.map PendingUnit.assignedId := by
      rw [hunits, List.map_map]
      rfl
    rw [hids, h.ids]
    exact h.nodup
  constructor
  · rintro ⟨t, ht, rfl, hdep⟩
    obtain ⟨u₀, -, rfl⟩ := mem_runSynthesis.mp ht
    obtain ⟨hne, u, hu, hpath, v, hv, href, rfl⟩ := (mem_taskDependencies hnd).mp hdep
    rw [hunits] at hu hv
    obtain ⟨pu, hpu, rfl⟩ := List.mem_map.mp hu
    obtain ⟨qu, hqu, rfl⟩ := List.mem_map.mp hv
    refine ⟨hne.symm, pu, hpu, qu, hqu, (mem_dependsOnUnitIds h hqu).mp href, ?_, rfl⟩
    exact congrArg taskIdForPath hpath
  · rintro ⟨hne, pu, hpu, qu, hqu, hrefs, rfl, rfl⟩
    have hu : semanticUnit pendingUnits pu ∈ comprehension.units := by
      rw [hunits]
      exact List.mem_map_of_mem hpu
    have hv : semanticUnit pendingUnits qu ∈ comprehension.units := by
      rw [hunits]
      exact List.mem_map_of_mem hqu
    refine ⟨taskForPath comprehension.units (suggestTargetPath (semanticUnit pendingUnits pu)),
      mem_runSynthesis.mpr ⟨_, hu, rfl⟩, rfl, ?_⟩
    refine (mem_taskDependencies hnd).mpr ⟨hne.symm, _, hu, rfl, _, hv, ?_, rfl⟩
    exact (mem_dependsOnUnitIds h hqu).mpr hrefs

end Quotient

/-! ### Blocked tasks -/

theorem acyclic_taskWaits_iff (tasks : List MigrationTask) :
    Acyclic (TaskWaits tasks) ↔ ∀ B : Set String, SelfBlocking (TaskWaits tasks) B → B = ∅ := by
  refine acyclic_iff (((tasks.map MigrationTask.id).finite_toSet).subset ?_)
  rintro a ⟨b, t, ht, rfl, -⟩
  exact List.mem_map_of_mem ht

section Runs

variable [UnicodeData] {config : MigrationRunConfig} {budget : BudgetState} {maxRetryRounds : ℤ}
  {comprehension : ComprehensionResult} {tasks : List MigrationTask} {gate : GateReadings}
  {inputs : List Input} {c c' : Snapshot} {i : Input} {B : Set String}

/-- Of a set that is left behind, nothing has been handed to an editor. -/
def Untouched (B : Set String) (c : Snapshot) : Prop :=
  LeftBehind c.state B ∧ ∀ id ∈ B, dispatches c.trace id = 0

theorem Untouched.superstep (h : Untouched B c) (hc : InLoop tasks c) (hstep : Superstep c i c') :
    Untouched B c' := by
  refine ⟨h.1.superstep hc.placed hstep, ?_⟩
  intro id hid
  by_cases hwave : ∃ sends, c.next = .editors sends
  · obtain ⟨sends, hnext⟩ := hwave
    obtain ⟨arrivals, -, harrivals, htrace, -⟩ := superstep_of_editors hc.placed hnext hstep
    rw [htrace, dispatches_cons_wave (records_perm_nextWave hc.placed hnext harrivals),
      h.2 id hid, Nat.add_zero]
    refine List.count_eq_zero_of_not_mem ?_
    intro hmem
    obtain ⟨t, ht, rfl⟩ := List.mem_map.mp hmem
    exact h.1.notMem_nextWave hc.placed.nodup (mem_tasks_of_mem_nextWave ht) hid ht
  · push Not at hwave
    obtain ⟨e, htrace, hbranches⟩ := trace_of_not_editors hwave hstep
    rw [htrace, dispatches_cons_of_branches hbranches]
    exact h.2 id hid

/-- Tasks that wait for each other are never dispatched. -/
theorem untouched_of_run (hnd : (tasks.map MigrationTask.id).Nodup)
    (hpending : ∀ t ∈ tasks, t.status = .pending)
    (hrun : graph.Run (planned (plannedState config budget maxRetryRounds comprehension tasks)
      gate) inputs c)
    (hB : SelfBlocking (TaskWaits tasks) B) (hne : B.Nonempty) : Untouched B c := by
  have hstart : LeftBehind (planned (plannedState config budget maxRetryRounds comprehension
      tasks) gate).state B := by
    refine ⟨?_, ?_, ?_⟩
    · obtain ⟨a, ha⟩ := hne
      obtain ⟨b, -, t, ht, rfl, -⟩ := hB a ha
      exact ⟨t, ht, ha⟩
    · intro t ht _
      rw [hpending t ht]
      simp
    · intro t ht hmem _
      obtain ⟨b, hb, t', ht', hid, hdep⟩ := hB t.id hmem
      have hsame : t' = t := eq_of_id_eq hnd ht' ht hid
      exact ⟨b, hsame ▸ hdep, Or.inl hb⟩
  have hboth : InLoop tasks c ∧ Untouched B c := by
    refine hrun.invariant (I := fun c => InLoop tasks c ∧ Untouched B c) ?_ ?_
    · refine ⟨?_, hstart, fun _ _ => rfl⟩
      exact inLoop_planned (s := plannedState config budget maxRetryRounds comprehension tasks)
        gate hnd
    · rintro c i c' ⟨hc, huntouched⟩ hstep -
      have h := superstep_of_step hstep
      exact ⟨hc.superstep h, huntouched.superstep hc h⟩
  exact hboth.2

/-- The plan has a cycle exactly if the references between the extracted units, seen from
their tasks, have one. Without one no set of tasks blocks itself; a set that does is
never dispatched, whatever the run does. -/
theorem plan_acyclic_iff {repoRoot scopeDescription sourceStack : String}
    {remainingBudgetUsd : ℚ} {answers : List ExtractionAnswer} {st : ExtractionState}
    {run : ComprehensionRun}
    (hextracted : runComprehension repoRoot scopeDescription sourceStack remainingBudgetUsd
      answers = (st, .ok run)) :
    (∀ a b, TaskWaits (runSynthesis run.result) a b ↔ UnitWaits st.pendingUnits a b) ∧
      (Acyclic (TaskWaits (runSynthesis run.result)) ↔ Acyclic (UnitWaits st.pendingUnits)) ∧
      (Acyclic (TaskWaits (runSynthesis run.result)) ↔
        ∀ B : Set String, SelfBlocking (TaskWaits (runSynthesis run.result)) B → B = ∅) ∧
      ∀ (B : Set String) (config : MigrationRunConfig) (budget : BudgetState) (maxRetryRounds : ℤ)
        (gate : GateReadings) (inputs : List Input) (c : Snapshot),
        SelfBlocking (TaskWaits (runSynthesis run.result)) B →
        graph.Run (planned (plannedState config budget maxRetryRounds run.result
          (runSynthesis run.result)) gate) inputs c →
        ∀ t ∈ c.state.tasks, t.id ∈ B →
          t.status ≠ .succeeded ∧ dispatches c.trace t.id = 0 := by
  have hnumbered := numbered_of_runComprehension hextracted
  obtain ⟨-, -, hunits, -⟩ := runComprehension_ok hextracted
  have hwaits := taskWaits_iff hnumbered hunits
  refine ⟨hwaits, ?_, acyclic_taskWaits_iff _, ?_⟩
  · constructor
    · exact fun h => h.mono fun a b hab => (hwaits a b).mpr hab
    · exact fun h => h.mono fun a b hab => (hwaits a b).mp hab
  · intro B config budget maxRetryRounds gate inputs c hB hrun t ht hid
    have huntouched := untouched_of_run (nodup_runSynthesis run.result)
      (fun t ht => status_runSynthesis ht) hrun hB ⟨t.id, hid⟩
    exact ⟨huntouched.1.unfinished t ht hid, huntouched.2 t.id hid⟩

end Runs

section Mutual

attribute [local instance] asciiTables

/-- Two services that use each other. -/
def mutualServices : List ExtractionAnswer :=
  [serviceFile "OrderService" ["StockService"], serviceFile "StockService" ["OrderService"]]

def orderTask : String := "task::app_services_order_service_py"

def stockTask : String := "task::app_services_stock_service_py"

/-- The two tasks of the plan wait for each other. -/
theorem mutualServices_wait :
    ∃ st run, runComprehension "" "" "springboot" 1 mutualServices = (st, .ok run) ∧
      TaskWaits (runSynthesis run.result) orderTask stockTask ∧
      TaskWaits (runSynthesis run.result) stockTask orderTask := by
  have hplan : (match (runComprehension "" "" "springboot" 1 mutualServices).2 with
      | .ok run => (runSynthesis run.result).map fun t => (t.id, t.dependsOnTaskIds)
      | .error _ => []) = [(orderTask, [stockTask]), (stockTask, [orderTask])] := by
    decide +kernel
  rcases hout : runComprehension "" "" "springboot" 1 mutualServices with ⟨st, exc | run⟩
  · simp [hout] at hplan
  · have htasks : (runSynthesis run.result).map (fun t => (t.id, t.dependsOnTaskIds)) =
        [(orderTask, [stockTask]), (stockTask, [orderTask])] := by simpa [hout] using hplan
    have hwaits : ∀ a b, (a, [b]) ∈ (runSynthesis run.result).map
        (fun t => (t.id, t.dependsOnTaskIds)) → TaskWaits (runSynthesis run.result) a b := by
      intro a b hmem
      obtain ⟨t, ht, heq⟩ := List.mem_map.mp hmem
      obtain ⟨hid, hdeps⟩ := Prod.mk.inj heq
      exact ⟨t, ht, hid, by simp [hdeps]⟩
    exact ⟨st, run, rfl, hwaits orderTask stockTask (by simp [htasks]),
      hwaits stockTask orderTask (by simp [htasks])⟩

theorem planned_cycle :
    ∃ st run, runComprehension "" "" "springboot" 1 mutualServices = (st, .ok run) ∧
      ¬ Acyclic (TaskWaits (runSynthesis run.result)) := by
  obtain ⟨st, run, hextracted, hto, hback⟩ := mutualServices_wait
  refine ⟨st, run, hextracted, ?_⟩
  intro hacyclic
  exact hacyclic orderTask (.tail (.single hto) hback)

theorem plan_acyclic_iff_mutualServices :
    ∃ st run, runComprehension "" "" "springboot" 1 mutualServices = (st, .ok run) ∧
      UnitWaits st.pendingUnits orderTask stockTask ∧
      UnitWaits st.pendingUnits stockTask orderTask := by
  obtain ⟨st, run, hextracted, hto, hback⟩ := mutualServices_wait
  obtain ⟨hwaits, -⟩ := plan_acyclic_iff hextracted
  exact ⟨st, run, hextracted, (hwaits _ _).mp hto, (hwaits _ _).mp hback⟩

end Mutual

end StackMigrate
