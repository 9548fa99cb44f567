import StackMigrate.Graph.Diffs
import Mathlib.Order.OrderDual

/-!
# Which attempt wins a path

The table of latest attempts keeps a task where its first attempt stood. So the effective set
goes through the tasks in the order in which they were first attempted, and a path that two
tasks emit gets the content of the one that was started later, however old that attempt is.
-/

namespace StackMigrate

open KeyedList

variable (editorResults : List EditorResult) (tasks : List MigrationTask)

/-- The latest attempts of the succeeded tasks, in the order in which they were made. -/
def newestResults : List EditorResult :=
  (lastOccurrences EditorResult.taskId editorResults).filter fun r =>
    r.taskId ∈ succeededIds tasks

/-- Every path has the content that was emitted for it last. -/
def LastWriterWins : Prop :=
  ∀ diff ∈ effectiveDiffs editorResults tasks, ∃ newest,
    last FileDiff.path ((newestResults editorResults tasks).flatMap EditorResult.diffs) diff.path =
      some newest ∧ diff.content = newest.content

/-- The latest attempt of a succeeded task that emits the path. -/
structure CountsFor (path : String) (r : EditorResult) : Prop where
  latest : last EditorResult.taskId editorResults r.taskId = some r
  succeeded : r.taskId ∈ succeededIds tasks
  emits : path ∈ r.diffs.map FileDiff.path

/-- How many results came before the first attempt of the task. -/
def firstAttempt (r : EditorResult) : ℕ := (editorResults.map EditorResult.taskId).idxOf r.taskId

/-- How many results came after the latest attempt of the task. -/
def age (r : EditorResult) : ℕ :=
  (editorResults.map EditorResult.taskId).reverse.idxOf r.taskId

/-- For every path, the task that was started last and the one that was retried last emit the
same content. -/
def RetriesAgree : Prop :=
  ∀ path started newest, CountsFor editorResults tasks path started →
    CountsFor editorResults tasks path newest →
    (∀ r, CountsFor editorResults tasks path r →
      firstAttempt editorResults r ≤ firstAttempt editorResults started) →
    (∀ r, CountsFor editorResults tasks path r →
      age editorResults newest ≤ age editorResults r) →
    (last FileDiff.path started.diffs path).map FileDiff.content =
      (last FileDiff.path newest.diffs path).map FileDiff.content

variable {editorResults tasks} {path : String} {diff : FileDiff}

/-! ### Both orders -/

theorem mem_effectiveResults {r : EditorResult} : r ∈ effectiveResults editorResults tasks ↔
    last EditorResult.taskId editorResults r.taskId = some r ∧ r.taskId ∈ succeededIds tasks := by
  simp [effectiveResults, latestResultsByTask, mem_collect_iff]

theorem mem_newestResults {r : EditorResult} : r ∈ newestResults editorResults tasks ↔
    last EditorResult.taskId editorResults r.taskId = some r ∧ r.taskId ∈ succeededIds tasks := by
  simp [newestResults, mem_lastOccurrences]

theorem pairwise_effectiveResults : (effectiveResults editorResults tasks).Pairwise fun r r' =>
    firstAttempt editorResults r < firstAttempt editorResults r' :=
  (pairwise_idxOf_collect editorResults).filter _

theorem pairwise_newestResults : (newestResults editorResults tasks).Pairwise fun r r' =>
    OrderDual.toDual (age editorResults r) < OrderDual.toDual (age editorResults r') :=
  (pairwise_idxOf_lastOccurrences editorResults).filter _

/-- The last diff for a path, in any order of the results that count. -/
theorem last_flatMap_diffs_iff {ρ : Type} [Preorder ρ] {results : List EditorResult}
    {rank : EditorResult → ρ} (hpairwise : results.Pairwise fun r r' => rank r < rank r')
    (hmem : ∀ r, r ∈ results ↔ last EditorResult.taskId editorResults r.taskId = some r ∧
      r.taskId ∈ succeededIds tasks) :
    last FileDiff.path (results.flatMap EditorResult.diffs) path = some diff ↔
      ∃ r, CountsFor editorResults tasks path r ∧ last FileDiff.path r.diffs path = some diff ∧
        ∀ r', CountsFor editorResults tasks path r' → rank r' ≤ rank r := by
  rw [last_flatMap_iff hpairwise]
  constructor
  · rintro ⟨r, hr, hlast, hmax⟩
    obtain ⟨hlatest, hsucceeded⟩ := (hmem r).mp hr
    have hemits : path ∈ r.diffs.map FileDiff.path :=
      key_of_last hlast ▸ List.mem_map_of_mem (mem_of_last hlast)
    exact ⟨r, ⟨hlatest, hsucceeded, hemits⟩, hlast, fun r' hr' =>
      hmax r' ((hmem r').mpr ⟨hr'.latest, hr'.succeeded⟩) hr'.emits⟩
  · rintro ⟨r, hcounts, hlast, hmax⟩
    refine ⟨r, (hmem r).mpr ⟨hcounts.latest, hcounts.succeeded⟩, hlast, fun r' hr' hemits => ?_⟩
    obtain ⟨hlatest, hsucceeded⟩ := (hmem r').mp hr'
    exact hmax r' ⟨hlatest, hsucceeded, hemits⟩

/-- The diff that the code takes. -/
theorem mem_effectiveDiffs_iff : diff ∈ effectiveDiffs editorResults tasks ↔
    ∃ started, CountsFor editorResults tasks diff.path started ∧
      last FileDiff.path started.diffs diff.path = some diff ∧
      ∀ r, CountsFor editorResults tasks diff.path r →
        firstAttempt editorResults r ≤ firstAttempt editorResults started := by
  rw [effectiveDiffs, mem_collect_iff]
  exact last_flatMap_diffs_iff pairwise_effectiveResults fun _ => mem_effectiveResults

/-- The diff that should win. -/
theorem last_newest_iff :
    last FileDiff.path ((newestResults editorResults tasks).flatMap EditorResult.diffs) path =
      some diff ↔
    ∃ newest, CountsFor editorResults tasks path newest ∧
      last FileDiff.path newest.diffs path = some diff ∧
      ∀ r, CountsFor editorResults tasks path r →
        age editorResults newest ≤ age editorResults r :=
  last_flatMap_diffs_iff pairwise_newestResults fun _ => mem_newestResults

theorem CountsFor.exists_last {r : EditorResult} (h : CountsFor editorResults tasks path r) :
    ∃ diff, last FileDiff.path r.diffs path = some diff := by
  cases hlast : last FileDiff.path r.diffs path with
  | some diff => exact ⟨diff, rfl⟩
  | none => exact absurd h.emits (last_eq_none_iff.mp hlast)

/-- Some result is the newest one. -/
theorem CountsFor.exists_newest {r : EditorResult} (h : CountsFor editorResults tasks path r) :
    ∃ newest, last FileDiff.path
      ((newestResults editorResults tasks).flatMap EditorResult.diffs) path = some newest := by
  cases hlast : last FileDiff.path
      ((newestResults editorResults tasks).flatMap EditorResult.diffs) path with
  | some newest => exact ⟨newest, rfl⟩
  | none =>
    obtain ⟨diff, hdiff, rfl⟩ := List.mem_map.mp h.emits
    have hmem := List.mem_flatMap.mpr
      ⟨r, mem_newestResults.mpr ⟨h.latest, h.succeeded⟩, hdiff⟩
    exact absurd (List.mem_map_of_mem hmem) (last_eq_none_iff.mp hlast)

/-! ### The result -/

/-- The last writer wins if and only if, for every path, the task that was started last agrees
with the attempt that was made last. -/
theorem last_writer_wins_iff (editorResults : List EditorResult) (tasks : List MigrationTask) :
    LastWriterWins editorResults tasks ↔ RetriesAgree editorResults tasks := by
  constructor
  · intro hwins path started newest hstarted hnewest hmaxStarted hminAge
    obtain ⟨taken, htaken⟩ := hstarted.exists_last
    obtain ⟨due, hdue⟩ := hnewest.exists_last
    obtain rfl : taken.path = path := key_of_last htaken
    obtain ⟨winner, hwinner, hcontent⟩ := hwins taken
      (mem_effectiveDiffs_iff.mpr ⟨started, hstarted, htaken, hmaxStarted⟩)
    have hlast := last_newest_iff.mpr ⟨newest, hnewest, hdue, hminAge⟩
    obtain rfl : winner = due := Option.some.inj (hwinner.symm.trans hlast)
    rw [htaken, hdue, Option.map_some, Option.map_some, hcontent]
  · intro hagree diff hdiff
    obtain ⟨started, hstarted, htaken, hmaxStarted⟩ := mem_effectiveDiffs_iff.mp hdiff
    obtain ⟨due, hdue⟩ := hstarted.exists_newest
    obtain ⟨newest, hnewest, hlast, hminAge⟩ := last_newest_iff.mp hdue
    have hcontent := hagree diff.path started newest hstarted hnewest hmaxStarted hminAge
    rw [htaken, hlast, Option.map_some, Option.map_some, Option.some.injEq] at hcontent
    exact ⟨due, hdue, hcontent⟩

/-- The first task is retried after the second one has written the same file. -/
def retriedResults : List EditorResult :=
  [⟨"t1", [⟨"a.py", "old", true⟩], "", 0⟩, ⟨"t2", [⟨"a.py", "other", true⟩], "", 0⟩,
    ⟨"t1", [⟨"a.py", "new", true⟩], "", 0⟩]

theorem retry_is_overridden : ¬ LastWriterWins retriedResults
    [{ id := "t1", status := .succeeded }, { id := "t2", status := .succeeded }] := by
  intro hwins
  obtain ⟨newest, hlast, hcontent⟩ := hwins ⟨"a.py", "other", true⟩ (by decide +kernel)
  have hnewest : last FileDiff.path ((newestResults retriedResults
      [{ id := "t1", status := .succeeded }, { id := "t2", status := .succeeded }]).flatMap
        EditorResult.diffs) "a.py" = some ⟨"a.py", "new", true⟩ := by decide +kernel
  obtain rfl := Option.some.inj (hlast.symm.trans hnewest)
  exact absurd hcontent (by decide)

end StackMigrate
