import StackMigrate.State.GraphState
import Mathlib.Data.List.Dedup
import Mathlib.Data.List.Sort
import Mathlib.Data.String.Basic

/-!
# The effective output of a run

`editor_results` only ever grows, so after retries it holds several attempts for one
task. Sandbox, aggregator and publisher all derive their file set from these
functions: the latest attempt of every task that is currently `succeeded`.
-/

namespace StackMigrate

open KeyedList

/-- The values of the dictionary `latest_results_by_task`, in its order. -/
def latestResultsByTask (editorResults : List EditorResult) : List EditorResult :=
  collect EditorResult.taskId editorResults

/-- The ids of the tasks that count. -/
def succeededIds (tasks : List MigrationTask) : List String :=
  (tasks.filter fun t => t.status = .succeeded).map MigrationTask.id

def effectiveResults (editorResults : List EditorResult) (tasks : List MigrationTask) :
    List EditorResult :=
  (latestResultsByTask editorResults).filter fun r => r.taskId ∈ succeededIds tasks

/-- Flattened, one diff a path: the position of the first, the content of the last. -/
def effectiveDiffs (editorResults : List EditorResult) (tasks : List MigrationTask) :
    List FileDiff :=
  collect FileDiff.path ((effectiveResults editorResults tasks).flatMap EditorResult.diffs)

/-- `sorted(ever_written - effective)`. -/
def stalePaths (editorResults : List EditorResult) (tasks : List MigrationTask) : List String :=
  let everWritten := (editorResults.flatMap EditorResult.diffs).map FileDiff.path
  let effective := (effectiveDiffs editorResults tasks).map FileDiff.path
  ((everWritten.dedup).filter fun p => p ∉ effective).insertionSort (· ≤ ·)

/-- What counts has been emitted. -/
theorem emitted_of_effective {editorResults : List EditorResult} {tasks : List MigrationTask}
    {diff : FileDiff} (h : diff ∈ effectiveDiffs editorResults tasks) :
    ∃ r ∈ editorResults, diff ∈ r.diffs := by
  obtain ⟨r, hr, hdiff⟩ := List.mem_flatMap.mp (mem_of_mem_collect h)
  exact ⟨r, mem_of_mem_collect (List.mem_of_mem_filter hr), hdiff⟩

theorem mem_stalePaths {editorResults : List EditorResult} {tasks : List MigrationTask}
    {path : String} : path ∈ stalePaths editorResults tasks ↔
      (∃ r ∈ editorResults, ∃ diff ∈ r.diffs, diff.path = path) ∧
        ∀ diff ∈ effectiveDiffs editorResults tasks, diff.path ≠ path := by
  have hsort : ∀ l : List String, path ∈ l.insertionSort (· ≤ ·) ↔ path ∈ l :=
    fun l => (List.perm_insertionSort _ l).mem_iff
  simp only [stalePaths, hsort, List.mem_filter, List.mem_dedup, List.mem_map, List.mem_flatMap,
    decide_eq_true_eq]
  refine and_congr ⟨?_, ?_⟩ (by simp)
  · rintro ⟨diff, ⟨r, hr, hdiff⟩, hpath⟩
    exact ⟨r, hr, diff, hdiff, hpath⟩
  · rintro ⟨r, hr, diff, hdiff, hpath⟩
    exact ⟨diff, ⟨r, hr, hdiff⟩, hpath⟩

theorem nodup_effectiveDiffs (editorResults : List EditorResult) (tasks : List MigrationTask) :
    ((effectiveDiffs editorResults tasks).map FileDiff.path).Nodup :=
  nodup_keys_collect _

end StackMigrate
