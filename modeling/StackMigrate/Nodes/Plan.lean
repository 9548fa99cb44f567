import StackMigrate.Core.Slugs
import StackMigrate.Nodes.Synthesis
import StackMigrate.Nodes.UnitIds
import Mathlib.Data.List.Dedup

/-!
# The planned task list

The target paths of the adapter are slugs in fixed directories, so different paths give
different task ids. The dependencies of the plan are the references between units, seen
from the tasks that the units belong to.
-/

namespace StackMigrate

open KeyedList

/-! ### Task ids -/

theorem isSlug_moduleNameFor (unit : SemanticUnit) (name : String) :
    IsSlug (moduleNameFor unit name).toList := by
  unfold moduleNameFor
  split
  · dsimp only
    split_ifs
    · decide
    · exact isSlug_slugify _
  · exact isSlug_slugify _

/-- `_KIND_TO_DIR` with underscores for slashes. -/
def dirSlug : SemanticUnitKind → List Char
  | .endpoint => "app_routers".toList
  | .service => "app_services".toList
  | .repository => "app_repositories".toList
  | .dataModel => "app_schemas".toList
  | .middleware => "app_middleware".toList
  | .config => "app_core".toList
  | .utility => "app_utils".toList

/-- What follows the directory in the slug of a path. -/
def moduleSlug (module : List Char) : List Char :=
  (if module = [] then [] else '_' :: module) ++ ['_', 'p', 'y']

theorem collapseRuns_path (kind : SemanticUnitKind) {module : List Char} (h : IsSlug module) :
    collapseRuns false ((kindToDir kind).toList ++ '/' :: (module ++ ['.', 'p', 'y'])) =
      dirSlug kind ++ moduleSlug module := by
  have hrest : collapseRuns true (module ++ ['.', 'p', 'y']) =
      if module = [] then ['p', 'y'] else module ++ ['_', 'p', 'y'] := by
    split_ifs with hempty
    · subst hempty
      rfl
    · rw [collapseRuns_append hempty h.chars h.single h.last fun _ => h.head]
      rfl
  have hdir : ∀ rest, collapseRuns false ((kindToDir kind).toList ++ '/' :: rest) =
      dirSlug kind ++ '_' :: collapseRuns true rest := by
    intro rest
    cases kind <;> rfl
  rw [hdir, hrest, moduleSlug]
  split_ifs with hempty <;> simp

theorem isUpper_dirs (kind : SemanticUnitKind) :
    (∀ c ∈ (kindToDir kind).toList, c.isUpper = false) ∧
      (∀ c ∈ dirSlug kind, c.isUpper = false) ∧ (dirSlug kind).head? = some 'a' := by
  cases kind <;>
    exact ⟨not_isUpper_of_all (by decide), not_isUpper_of_all (by decide), by decide⟩

theorem slugify_path (kind : SemanticUnitKind) {module : String} (h : IsSlug module.toList) :
    slugify (kindToDir kind ++ "/" ++ module ++ ".py") =
      String.ofList (dirSlug kind ++ moduleSlug module.toList) := by
  obtain ⟨hdir, hslug, hfirst⟩ := isUpper_dirs kind
  have hmodule : ∀ c ∈ module.toList, c.isUpper = false :=
    fun c hc => isUpper_of_slug (h.chars c hc)
  have hpath : (kindToDir kind ++ "/" ++ module ++ ".py").toList =
      (kindToDir kind).toList ++ '/' :: (module.toList ++ ['.', 'p', 'y']) := by
    simp [String.toList_append]
  have hlower : ∀ c ∈ (kindToDir kind).toList ++ '/' :: (module.toList ++ ['.', 'p', 'y']),
      c.isUpper = false := by
    intro c hc
    simp only [List.mem_append, List.mem_cons, List.not_mem_nil, or_false] at hc
    rcases hc with hc | rfl | hc | rfl | rfl | rfl
    · exact hdir c hc
    · decide
    · exact hmodule c hc
    all_goals decide
  have hsluglower : ∀ c ∈ dirSlug kind ++ moduleSlug module.toList, c.toLower = c := by
    intro c hc
    refine toLower_of_not_isUpper ?_
    rcases List.mem_append.mp hc with hc | hc
    · exact hslug c hc
    · unfold moduleSlug at hc
      rcases List.mem_append.mp hc with hc | hc
      · split_ifs at hc
        · cases hc
        · rcases List.mem_cons.mp hc with rfl | hc
          · decide
          · exact hmodule c hc
      · exact not_isUpper_of_all (by decide) c hc
  have hlast : (dirSlug kind ++ moduleSlug module.toList).getLast? = some 'y' := by
    simp [moduleSlug]
  have hsame : (dirSlug kind ++ moduleSlug module.toList).map Char.toLower =
      dirSlug kind ++ moduleSlug module.toList :=
    (List.map_congr_left hsluglower).trans (List.map_id' _)
  rw [slugify, hpath, splitCamelCase_of_lower hlower, collapseRuns_path kind h,
    stripChar_of_ends, hsame]
  · rw [List.head?_append, hfirst]
    simp
  · rw [hlast]
    decide

theorem moduleSlug_injective {m m' : List Char} (h : moduleSlug m = moduleSlug m') : m = m' := by
  unfold moduleSlug at h
  have hcancel := List.append_cancel_right h
  split_ifs at hcancel with hm hm' hm'
  · rw [hm, hm']
  · exact (List.cons.inj hcancel).2

/-- The directories are told apart by the first two letters behind `app_`. -/
theorem dirSlug_append_injective {kind kind' : SemanticUnitKind} {rest rest' : List Char}
    (h : dirSlug kind ++ rest = dirSlug kind' ++ rest') : kind = kind' := by
  have hlen : ∀ kind, 6 ≤ (dirSlug kind).length := by
    intro kind
    cases kind <;> decide
  have htake := congrArg (List.take 6) h
  rw [List.take_append_of_le_length (hlen kind), List.take_append_of_le_length (hlen kind')]
    at htake
  revert htake
  cases kind <;> cases kind' <;> decide

theorem exists_module (unit : SemanticUnit) :
    ∃ module, IsSlug module.toList ∧
      suggestTargetPath unit = kindToDir unit.kind ++ "/" ++ module ++ ".py" :=
  ⟨_, isSlug_moduleNameFor unit _, rfl⟩

theorem taskIdForPath_injective {u v : SemanticUnit}
    (h : taskIdForPath (suggestTargetPath u) = taskIdForPath (suggestTargetPath v)) :
    suggestTargetPath u = suggestTargetPath v := by
  obtain ⟨m, hm, hu⟩ := exists_module u
  obtain ⟨m', hm', hv⟩ := exists_module v
  rw [hu, hv] at h ⊢
  unfold taskIdForPath at h
  rw [String.append_right_inj, slugify_path _ hm, slugify_path _ hm'] at h
  have hchars := String.ofList_injective h
  have hkind := dirSlug_append_injective hchars
  rw [hkind] at hchars ⊢
  have hmodule := moduleSlug_injective (List.append_cancel_left hchars)
  rw [String.toList_inj.mp hmodule]

/-! ### The list -/

theorem mem_targetPaths {units : List SemanticUnit} {path : String} :
    path ∈ targetPaths units ↔ ∃ u ∈ units, suggestTargetPath u = path := by
  have hmem : path ∈ (targetPaths units).map id ↔ path ∈ (units.map suggestTargetPath).map id :=
    mem_keys_collect (units.map suggestTargetPath) path
  simpa using hmem

/-- The tasks of a plan have different ids. -/
theorem nodup_runSynthesis (comprehension : ComprehensionResult) :
    ((runSynthesis comprehension).map MigrationTask.id).Nodup := by
  have hpaths : (targetPaths comprehension.units).Nodup := by
    have hnd : ((targetPaths comprehension.units).map id).Nodup :=
      nodup_keys_collect (comprehension.units.map suggestTargetPath)
    simpa using hnd
  rw [runSynthesis, List.map_map]
  refine hpaths.map_on ?_
  intro path hpath path' hpath' hid
  obtain ⟨u, -, rfl⟩ := mem_targetPaths.mp hpath
  obtain ⟨v, -, rfl⟩ := mem_targetPaths.mp hpath'
  exact taskIdForPath_injective hid

theorem mem_runSynthesis {comprehension : ComprehensionResult} {t : MigrationTask} :
    t ∈ runSynthesis comprehension ↔
      ∃ u ∈ comprehension.units, t = taskForPath comprehension.units (suggestTargetPath u) := by
  simp only [runSynthesis, List.mem_map, mem_targetPaths]
  constructor
  · rintro ⟨path, ⟨u, hu, rfl⟩, rfl⟩
    exact ⟨u, hu, rfl⟩
  · rintro ⟨u, hu, rfl⟩
    exact ⟨_, ⟨u, hu, rfl⟩, rfl⟩

/-! ### The dependencies -/

/-- The task that migrates the unit. -/
def SemanticUnit.taskId (u : SemanticUnit) : String := taskIdForPath (suggestTargetPath u)

theorem unitToTaskId_of_mem {units : List SemanticUnit} (hnd : (units.map SemanticUnit.id).Nodup)
    {u : SemanticUnit} (hu : u ∈ units) : unitToTaskId units u.id = some u.taskId := by
  rw [unitToTaskId, collect_of_nodup hnd, lookup_of_mem hnd hu]
  rfl

theorem unitToTaskId_eq_some {units : List SemanticUnit}
    (hnd : (units.map SemanticUnit.id).Nodup) {unitId taskId : String} :
    unitToTaskId units unitId = some taskId ↔ ∃ v ∈ units, v.id = unitId ∧ v.taskId = taskId := by
  constructor
  · intro h
    rw [unitToTaskId, collect_of_nodup hnd, Option.map_eq_some_iff] at h
    obtain ⟨v, hv, htask⟩ := h
    exact ⟨v, mem_of_lookup hv, key_of_lookup hv, htask⟩
  · rintro ⟨v, hv, rfl, rfl⟩
    exact unitToTaskId_of_mem hnd hv

theorem mem_taskDependencies {units : List SemanticUnit}
    (hnd : (units.map SemanticUnit.id).Nodup) {path dep : String} :
    dep ∈ taskDependencies units path ↔
      dep ≠ taskIdForPath path ∧ ∃ u ∈ units, suggestTargetPath u = path ∧
        ∃ v ∈ units, v.id ∈ u.dependsOnUnitIds ∧ v.taskId = dep := by
  simp only [taskDependencies, List.mem_insertionSort, List.mem_dedup, List.mem_filterMap,
    List.mem_flatMap, unitsForPath, List.mem_filter, decide_eq_true_eq, Option.filter_eq_some_iff,
    unitToTaskId_eq_some hnd]
  constructor
  · rintro ⟨depId, ⟨u, ⟨hu, hpath⟩, hdep⟩, ⟨v, hv, rfl, rfl⟩, hne⟩
    exact ⟨hne, u, hu, hpath, v, hv, hdep, rfl⟩
  · rintro ⟨hne, u, hu, hpath, v, hv, hdep, rfl⟩
    exact ⟨v.id, ⟨u, ⟨hu, hpath⟩, hdep⟩, ⟨v, hv, rfl, rfl⟩, hne⟩

/-! ### References between units -/

section References

variable [UnicodeData] {pendingUnits : List PendingUnit}

/-- The first unit of that name, ignoring case, is another one. -/
def PendingUnit.references (pendingUnits : List PendingUnit) (pu qu : PendingUnit) : Prop :=
  ∃ refName ∈ referencedNames pu.raw.payload,
    pendingUnits.find? (fun qu =>
      UnicodeData.lower qu.raw.name = UnicodeData.lower refName) = some qu ∧
    qu.assignedId ≠ pu.assignedId

theorem mem_resolveReferences {assignedId id : String} {refNames : List String} :
    id ∈ (resolveReferences pendingUnits assignedId refNames).1 ↔
      ∃ refName ∈ refNames, nameToId pendingUnits refName = some id ∧ id ≠ "" ∧
        id ≠ assignedId := by
  induction refNames with
  | nil => simp [resolveReferences]
  | cons refName rest ih =>
    rw [resolveReferences]
    split
    · next resolved hresolved =>
      rw [Option.filter_eq_some_iff] at hresolved
      simp only [List.mem_cons, ih, exists_eq_or_imp]
      constructor
      · rintro (rfl | h)
        · exact Or.inl (by simpa using hresolved)
        · exact Or.inr h
      · rintro (⟨hname, -⟩ | h)
        · rw [hresolved.1, Option.some.injEq] at hname
          exact Or.inl hname.symm
        · exact Or.inr h
    · next hnone =>
      have hskip : ¬ (nameToId pendingUnits refName = some id ∧ id ≠ "" ∧ id ≠ assignedId) := by
        rintro ⟨hname, hne, hother⟩
        simp [hname, hne, hother] at hnone
      have hrest : (∃ name ∈ refName :: rest, nameToId pendingUnits name = some id ∧ id ≠ "" ∧
          id ≠ assignedId) ↔ ∃ name ∈ rest, nameToId pendingUnits name = some id ∧ id ≠ "" ∧
          id ≠ assignedId := by
        simp only [List.mem_cons, exists_eq_or_imp, or_iff_right hskip]
      split_ifs
      · rw [hrest]
        exact ih
      · rw [hrest]
        exact ih

end References

end StackMigrate
