import StackMigrate.State.GraphState

/-!
# The task reducer

The branches of a superstep hand in their task updates separately, and the grouping in which
they are folded is not specified. It does not matter: a merge is the table of the two lists put
one behind the other, with places from the first occurrence of an id and tasks from the last.
-/

namespace StackMigrate

open KeyedList

variable (a b c : List MigrationTask)

theorem mergeTaskLists_eq_collect :
    mergeTaskLists a b = collect MigrationTask.id (a ++ b) :=
  (collect_append a b).symm

/-! ### What a merge contains -/

theorem ids_mergeTaskLists :
    (mergeTaskLists a b).map MigrationTask.id = ((a ++ b).map MigrationTask.id).eraseDups := by
  rw [mergeTaskLists_eq_collect, keys_collect]

variable {a b c}

/-- A merged task is the one behind which its id does not occur. -/
theorem mem_mergeTaskLists {t : MigrationTask} : t ∈ mergeTaskLists a b ↔
    ∃ before after, a ++ b = before ++ t :: after ∧ ∀ later ∈ after, later.id ≠ t.id := by
  rw [mergeTaskLists_eq_collect, mem_collect_iff, last_eq_some_iff]
  exact and_iff_right rfl

theorem getElem?_mergeTaskLists (hnd : (a.map MigrationTask.id).Nodup) {i : ℕ} {t : MigrationTask}
    (h : a[i]? = some t) (hnew : t.id ∉ b.map MigrationTask.id) :
    (mergeTaskLists a b)[i]? = some t := by
  rw [mergeTaskLists_of_nodup hnd]
  exact getElem?_upsertAll_of_notMem h hnew

/-! ### Several merges -/

theorem mergeTaskLists_append :
    mergeTaskLists (mergeTaskLists a b) c = mergeTaskLists a (b ++ c) := by
  rw [mergeTaskLists_of_nodup (nodup_mergeTaskLists a b), mergeTaskLists, mergeTaskLists,
    upsertAll_append]

theorem mergeTaskLists_merged :
    mergeTaskLists a (mergeTaskLists b c) = mergeTaskLists a (b ++ c) := by
  rw [mergeTaskLists_eq_collect b c, mergeTaskLists_eq_collect, mergeTaskLists_eq_collect,
    collect_append_collect]

theorem mergeTaskLists_assoc :
    mergeTaskLists (mergeTaskLists a b) c = mergeTaskLists a (mergeTaskLists b c) :=
  mergeTaskLists_append.trans mergeTaskLists_merged.symm

theorem mergeTaskLists_right_comm (hb : ∀ t ∈ b, t.id ∈ a.map MigrationTask.id)
    (hc : ∀ t ∈ c, t.id ∈ a.map MigrationTask.id)
    (hdisjoint : ∀ t ∈ b, t.id ∉ c.map MigrationTask.id) :
    mergeTaskLists (mergeTaskLists a b) c = mergeTaskLists (mergeTaskLists a c) b := by
  have hids : ∀ k, k ∈ a.map MigrationTask.id → k ∈ (collect MigrationTask.id a).map
      MigrationTask.id := fun k => (mem_keys_collect a k).mpr
  rw [mergeTaskLists_of_nodup (nodup_mergeTaskLists a b),
    mergeTaskLists_of_nodup (nodup_mergeTaskLists a c)]
  exact upsertAll_comm (nodup_keys_collect a) (fun t ht => hids _ (hb t ht))
    (fun t ht => hids _ (hc t ht)) hdisjoint

/-! ### The updates of a superstep -/

/-- What the updates write to the task list, one behind the other. -/
def writtenTasks (updates : List Update) : List MigrationTask :=
  updates.flatMap fun u => u.tasks.getD []

theorem tasks_applyAll {s : GraphState} (hnd : (s.tasks.map MigrationTask.id).Nodup)
    (updates : List Update) :
    (s.applyAll updates).tasks = mergeTaskLists s.tasks (writtenTasks updates) := by
  induction updates generalizing s with
  | nil => exact (collect_of_nodup hnd).symm
  | cons u us ih =>
    rw [GraphState.applyAll_cons]
    cases hu : u.tasks with
    | none =>
      have htasks : (s.apply u).tasks = s.tasks := by simp [hu]
      rw [ih (htasks ▸ hnd), htasks]
      simp [writtenTasks, hu]
    | some new =>
      have htasks : (s.apply u).tasks = mergeTaskLists s.tasks new := by simp [hu]
      rw [ih (htasks ▸ nodup_mergeTaskLists s.tasks new), htasks, mergeTaskLists_append]
      simp [writtenTasks, hu]

/-- Branches that write different planned tasks can be folded in any order. -/
theorem tasks_applyAll_perm {s : GraphState} (hnd : (s.tasks.map MigrationTask.id).Nodup)
    {updates updates' : List Update} (hperm : updates.Perm updates')
    (hplanned : ∀ t ∈ writtenTasks updates, t.id ∈ s.tasks.map MigrationTask.id)
    (hdistinct : ((writtenTasks updates).map MigrationTask.id).Nodup) :
    (s.applyAll updates).tasks = (s.applyAll updates').tasks := by
  have hwritten : (writtenTasks updates).Perm (writtenTasks updates') :=
    hperm.flatMap_right _
  have hplanned' : ∀ t ∈ writtenTasks updates', t.id ∈ s.tasks.map MigrationTask.id :=
    fun t ht => hplanned t (hwritten.mem_iff.mpr ht)
  rw [tasks_applyAll hnd, tasks_applyAll hnd, mergeTaskLists_eq_map hnd hplanned,
    mergeTaskLists_eq_map hnd hplanned']
  exact List.map_congr_left fun t _ => by rw [last_perm hdistinct hwritten]

/-! ### The reducer -/

theorem mergeTaskLists_associative_upsert (a b c : List MigrationTask) :
    ((mergeTaskLists a b).map MigrationTask.id).Nodup ∧
    (mergeTaskLists a b).map MigrationTask.id = ((a ++ b).map MigrationTask.id).eraseDups ∧
    (∀ t : MigrationTask, t ∈ mergeTaskLists a b ↔
      ∃ before after, a ++ b = before ++ t :: after ∧ ∀ later ∈ after, later.id ≠ t.id) ∧
    ((a.map MigrationTask.id).Nodup → ∀ (i : ℕ) (t : MigrationTask), a[i]? = some t →
      t.id ∉ b.map MigrationTask.id → (mergeTaskLists a b)[i]? = some t) ∧
    mergeTaskLists (mergeTaskLists a b) c = mergeTaskLists a (mergeTaskLists b c) ∧
    ((∀ t ∈ b, t.id ∈ a.map MigrationTask.id) → (∀ t ∈ c, t.id ∈ a.map MigrationTask.id) →
      (∀ t ∈ b, t.id ∉ c.map MigrationTask.id) →
      mergeTaskLists (mergeTaskLists a b) c = mergeTaskLists (mergeTaskLists a c) b) :=
  ⟨nodup_mergeTaskLists a b, ids_mergeTaskLists a b, fun _ => mem_mergeTaskLists,
    fun hnd _ _ h hnew => getElem?_mergeTaskLists hnd h hnew, mergeTaskLists_assoc,
    mergeTaskLists_right_comm⟩

/-- A retry of the first task and the end of the second. -/
theorem mergeTaskLists_associative_upsert_retry :
    (mergeTaskLists [{ id := "a" }, { id := "b" }] [{ id := "a", retryCount := 1 }])[1]? =
        some { id := "b" } ∧
      mergeTaskLists (mergeTaskLists [{ id := "a" }, { id := "b" }]
          [{ id := "a", retryCount := 1 }]) [{ id := "b", status := .succeeded }] =
        mergeTaskLists (mergeTaskLists [{ id := "a" }, { id := "b" }]
          [{ id := "b", status := .succeeded }]) [{ id := "a", retryCount := 1 }] := by
  have hmerge := mergeTaskLists_associative_upsert [{ id := "a" }, { id := "b" }]
    [{ id := "a", retryCount := 1 }] [{ id := "b", status := .succeeded }]
  exact ⟨hmerge.2.2.2.1 (by decide) 1 _ rfl (by decide),
    hmerge.2.2.2.2.2 (by decide) (by decide) (by decide)⟩

end StackMigrate
