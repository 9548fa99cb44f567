import StackMigrate.Nodes.Plan
import StackMigrate.State.GraphState

/-!
# The plan as a quotient

Synthesis groups the units by target path. Tasks are the classes, and their dependencies are
the unit dependencies between different classes.
-/

namespace StackMigrate

open KeyedList

section Plan

variable {comprehension : ComprehensionResult} {t t' : MigrationTask} {u v : SemanticUnit}

/-- The paths of the files a task is to write. -/
def MigrationTask.targetPaths (t : MigrationTask) : List String :=
  t.targetFiles.map TargetFileSpec.path

/-- A unit belongs to the task of its target path and to no other. -/
theorem mem_sourceUnitIds_iff (hnd : (comprehension.units.map SemanticUnit.id).Nodup)
    (hu : u ∈ comprehension.units) {path : String} :
    u.id ∈ (taskForPath comprehension.units path).sourceUnitIds ↔ suggestTargetPath u = path := by
  simp only [taskForPath, unitsForPath, List.mem_map, List.mem_filter, decide_eq_true_eq]
  constructor
  · rintro ⟨w, ⟨hw, hpath⟩, hid⟩
    rw [← List.inj_on_of_nodup_map hnd hw hu hid]
    exact hpath
  · intro hpath
    exact ⟨u, ⟨hu, hpath⟩, rfl⟩

/-- The directory of a path tells the kind of the unit. -/
theorem kind_of_suggestTargetPath (h : suggestTargetPath u = suggestTargetPath v) :
    u.kind = v.kind := by
  obtain ⟨m, hm, hu⟩ := exists_module u
  obtain ⟨m', hm', hv⟩ := exists_module v
  have hslug := congrArg slugify h
  rw [hu, hv, slugify_path _ hm, slugify_path _ hm'] at hslug
  exact dirSlug_append_injective (String.ofList_injective hslug)

theorem exists_unit_of_mem_sourceUnitIds (ht : t ∈ runSynthesis comprehension) {unitId : String}
    (h : unitId ∈ t.sourceUnitIds) : ∃ u ∈ comprehension.units, u.id = unitId := by
  obtain ⟨w, -, rfl⟩ := mem_runSynthesis.mp ht
  simp only [taskForPath, unitsForPath, List.mem_map, List.mem_filter] at h
  obtain ⟨u, ⟨hu, -⟩, hid⟩ := h
  exact ⟨u, hu, hid⟩

theorem nodup_sourceUnitIds (hnd : (comprehension.units.map SemanticUnit.id).Nodup)
    (ht : t ∈ runSynthesis comprehension) : t.sourceUnitIds.Nodup := by
  obtain ⟨w, -, rfl⟩ := mem_runSynthesis.mp ht
  exact hnd.sublist (List.filter_sublist.map _)

theorem existsUnique_task (hnd : (comprehension.units.map SemanticUnit.id).Nodup)
    (hu : u ∈ comprehension.units) :
    ∃! t, t ∈ runSynthesis comprehension ∧ u.id ∈ t.sourceUnitIds := by
  refine ⟨taskForPath comprehension.units (suggestTargetPath u),
    ⟨mem_runSynthesis.mpr ⟨u, hu, rfl⟩, (mem_sourceUnitIds_iff hnd hu).mpr rfl⟩, ?_⟩
  rintro t ⟨ht, hmem⟩
  obtain ⟨w, -, rfl⟩ := mem_runSynthesis.mp ht
  rw [(mem_sourceUnitIds_iff hnd hu).mp hmem]

theorem nodup_targetPaths_runSynthesis :
    ((runSynthesis comprehension).flatMap MigrationTask.targetPaths).Nodup := by
  have hpaths : (runSynthesis comprehension).flatMap MigrationTask.targetPaths =
      targetPaths comprehension.units := by
    simp [runSynthesis, MigrationTask.targetPaths, taskForPath, List.flatMap_map]
  have hnd : ((targetPaths comprehension.units).map id).Nodup :=
    nodup_keys_collect (comprehension.units.map suggestTargetPath)
  rw [hpaths]
  simpa using hnd

/-- The reducer takes over the whole plan. -/
theorem mergeTaskLists_runSynthesis :
    mergeTaskLists [] (runSynthesis comprehension) = runSynthesis comprehension := by
  have hplan := collect_of_nodup (nodup_runSynthesis comprehension)
  rwa [mergeTaskLists, collect_nil]

theorem kind_of_mem_sourceUnitIds (hnd : (comprehension.units.map SemanticUnit.id).Nodup)
    (ht : t ∈ runSynthesis comprehension) (hu : u ∈ comprehension.units)
    (hv : v ∈ comprehension.units) (hut : u.id ∈ t.sourceUnitIds) (hvt : v.id ∈ t.sourceUnitIds) :
    u.kind = v.kind := by
  obtain ⟨w, -, rfl⟩ := mem_runSynthesis.mp ht
  refine kind_of_suggestTargetPath ?_
  rw [(mem_sourceUnitIds_iff hnd hu).mp hut, (mem_sourceUnitIds_iff hnd hv).mp hvt]

theorem mem_dependsOnTaskIds_iff (hnd : (comprehension.units.map SemanticUnit.id).Nodup)
    (ht : t ∈ runSynthesis comprehension) (ht' : t' ∈ runSynthesis comprehension) :
    t'.id ∈ t.dependsOnTaskIds ↔ t ≠ t' ∧ ∃ u ∈ comprehension.units, u.id ∈ t.sourceUnitIds ∧
      ∃ v ∈ comprehension.units, v.id ∈ t'.sourceUnitIds ∧ v.id ∈ u.dependsOnUnitIds := by
  obtain ⟨w, -, rfl⟩ := mem_runSynthesis.mp ht
  obtain ⟨w', -, rfl⟩ := mem_runSynthesis.mp ht'
  have hother : taskIdForPath (suggestTargetPath w') ≠ taskIdForPath (suggestTargetPath w) ↔
      taskForPath comprehension.units (suggestTargetPath w) ≠
        taskForPath comprehension.units (suggestTargetPath w') := by
    rw [not_iff_not]
    constructor
    · intro hid
      rw [taskIdForPath_injective hid]
    · intro hsame
      exact (congrArg MigrationTask.id hsame).symm
  refine (mem_taskDependencies hnd).trans (and_congr hother ?_)
  constructor
  · rintro ⟨u, hu, hpath, v, hv, hdep, htask⟩
    refine ⟨u, hu, (mem_sourceUnitIds_iff hnd hu).mpr hpath, v, hv, ?_, hdep⟩
    exact (mem_sourceUnitIds_iff hnd hv).mpr (taskIdForPath_injective htask)
  · rintro ⟨u, hu, hut, v, hv, hvt, hdep⟩
    refine ⟨u, hu, (mem_sourceUnitIds_iff hnd hu).mp hut, v, hv, hdep, ?_⟩
    rw [SemanticUnit.taskId, (mem_sourceUnitIds_iff hnd hv).mp hvt]
    rfl

theorem dependsOnTaskIds_wellFormed (hnd : (comprehension.units.map SemanticUnit.id).Nodup)
    (ht : t ∈ runSynthesis comprehension) :
    t.dependsOnTaskIds.Nodup ∧ t.id ∉ t.dependsOnTaskIds ∧
      ∀ dep ∈ t.dependsOnTaskIds, dep ∈ (runSynthesis comprehension).map MigrationTask.id := by
  obtain ⟨w, -, rfl⟩ := mem_runSynthesis.mp ht
  refine ⟨?_, ?_, ?_⟩
  · have hsorted := List.perm_insertionSort (· ≤ ·)
      ((((unitsForPath comprehension.units (suggestTargetPath w)).flatMap
        SemanticUnit.dependsOnUnitIds).filterMap fun depId =>
          (unitToTaskId comprehension.units depId).filter
            (· ≠ taskIdForPath (suggestTargetPath w))).dedup)
    exact hsorted.nodup_iff.mpr (List.nodup_dedup _)
  · intro hself
    exact ((mem_taskDependencies hnd).mp hself).1 rfl
  · intro dep hdep
    obtain ⟨-, u, -, -, v, hv, -, rfl⟩ := (mem_taskDependencies hnd).mp hdep
    exact List.mem_map.mpr ⟨_, mem_runSynthesis.mpr ⟨v, hv, rfl⟩, rfl⟩

/-- Synthesis computes the quotient of the unit graph by target path: the tasks are the
classes of the units, none is lost, and a task depends on another one if and only if some unit
of the one lists a unit of the other. -/
theorem plan_is_quotient (hnd : (comprehension.units.map SemanticUnit.id).Nodup) :
    (∀ u ∈ comprehension.units,
        ∃! t, t ∈ runSynthesis comprehension ∧ u.id ∈ t.sourceUnitIds) ∧
      (∀ t ∈ runSynthesis comprehension, t.sourceUnitIds.Nodup ∧
        (∀ unitId ∈ t.sourceUnitIds, ∃ u ∈ comprehension.units, u.id = unitId) ∧
        ∀ u ∈ comprehension.units,
          u.id ∈ t.sourceUnitIds ↔ t.targetPaths = [suggestTargetPath u]) ∧
      ((runSynthesis comprehension).flatMap MigrationTask.targetPaths).Nodup ∧
      ((runSynthesis comprehension).map MigrationTask.id).Nodup ∧
      mergeTaskLists [] (runSynthesis comprehension) = runSynthesis comprehension ∧
      (∀ t ∈ runSynthesis comprehension, ∀ u ∈ comprehension.units, ∀ v ∈ comprehension.units,
        u.id ∈ t.sourceUnitIds → v.id ∈ t.sourceUnitIds → u.kind = v.kind) ∧
      (∀ t ∈ runSynthesis comprehension, ∀ t' ∈ runSynthesis comprehension,
        t'.id ∈ t.dependsOnTaskIds ↔
          t ≠ t' ∧ ∃ u ∈ comprehension.units, u.id ∈ t.sourceUnitIds ∧
            ∃ v ∈ comprehension.units, v.id ∈ t'.sourceUnitIds ∧ v.id ∈ u.dependsOnUnitIds) ∧
      ∀ t ∈ runSynthesis comprehension, t.dependsOnTaskIds.Nodup ∧ t.id ∉ t.dependsOnTaskIds ∧
        ∀ dep ∈ t.dependsOnTaskIds, dep ∈ (runSynthesis comprehension).map MigrationTask.id := by
  refine ⟨fun u hu => existsUnique_task hnd hu, ?_, nodup_targetPaths_runSynthesis,
    nodup_runSynthesis comprehension, mergeTaskLists_runSynthesis, ?_, ?_, ?_⟩
  · intro t ht
    refine ⟨nodup_sourceUnitIds hnd ht, fun _ h => exists_unit_of_mem_sourceUnitIds ht h, ?_⟩
    obtain ⟨w, -, rfl⟩ := mem_runSynthesis.mp ht
    intro u hu
    rw [mem_sourceUnitIds_iff hnd hu]
    simp [MigrationTask.targetPaths, taskForPath, eq_comm]
  · intro t ht u hu v hv
    exact kind_of_mem_sourceUnitIds hnd ht hu hv
  · intro t ht t' ht'
    exact mem_dependsOnTaskIds_iff hnd ht ht'
  · intro t ht
    exact dependsOnTaskIds_wellFormed hnd ht

end Plan

/-- Two endpoints of one controller, and the service that one of them calls. -/
def controllerUnits : ComprehensionResult where
  sourceStack := "springboot"
  repoRoot := ""
  units :=
    [{ id := "endpoint::create"
       kind := .endpoint
       sourceFiles := ["OrderController.java"]
       dependsOnUnitIds := ["service::orders"]
       payload := .endpoint { name := "create" } },
      { id := "endpoint::list"
        kind := .endpoint
        sourceFiles := ["OrderController.java"]
        payload := .endpoint { name := "list" } },
      { id := "service::orders"
        kind := .service
        sourceFiles := ["Orders.java"]
        payload := .service { name := "Orders" } }]

theorem plan_is_quotient_controllerUnits :
    ((runSynthesis controllerUnits).map MigrationTask.id).Nodup ∧
      mergeTaskLists [] (runSynthesis controllerUnits) = runSynthesis controllerUnits := by
  have hnd : (controllerUnits.units.map SemanticUnit.id).Nodup := by decide
  obtain ⟨-, -, -, hids, hmerged, -⟩ := plan_is_quotient hnd
  exact ⟨hids, hmerged⟩

end StackMigrate
