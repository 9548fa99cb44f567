import StackMigrate.Graph.Replay
import StackMigrate.Nodes.Migration
import StackMigrate.Sandbox.Batches

/-!
# The tested workspace

Stale and effective paths are compared as strings, the disk knows locations. Removing comes
first, so a location that a stale and an effective path share ends up with the effective
content, and every other file that was ever emitted is gone.
-/

namespace StackMigrate

open KeyedList PathTree FileSystem

/-- What a location holds behind the stage, with the tree before and after it. -/
structure StagedAt (s : GraphState) (fs fs' : FileSystem) (loc : Location) : Prop where
  /-- The last effective diff for the location. -/
  effective : ∀ before diff after,
    effectiveDiffs s.editorResults s.tasks = before ++ diff :: after →
    LeadsTo fs s.config.targetWorkspacePath diff.path loc →
    (∀ later ∈ after, ¬ LeadsTo fs s.config.targetWorkspacePath later.path loc) →
    fs'.contentAt loc = some diff.content
  /-- What was emitted and does not count any more. -/
  stale : (∀ diff ∈ effectiveDiffs s.editorResults s.tasks,
      ¬ LeadsTo fs s.config.targetWorkspacePath diff.path loc) →
    (∃ r ∈ s.editorResults, ∃ diff ∈ r.diffs,
      LeadsTo fs s.config.targetWorkspacePath diff.path loc) →
    fs'.contentAt loc = none
  /-- Everything else, where at most a directory was created on the way to a file. -/
  frame : (∀ r ∈ s.editorResults, ∀ diff ∈ r.diffs,
      ¬ LeadsTo fs s.config.targetWorkspacePath diff.path loc) →
    fs'.lookup loc = fs.lookup loc ∨
      fs.lookup loc = none ∧ fs'.lookup loc = some .directory

variable {s : GraphState} {fs fs' : FileSystem} {loc : Location}

/-- The stage as one operation on trees of files: drop what is stale, create directories, write
what is effective. -/
structure StageEffect (s : GraphState) (fs fs' : FileSystem) : Prop where
  stale : ∀ p ∈ stalePaths s.editorResults s.tasks, Accepted fs s.config.targetWorkspacePath p
  effective : ∀ diff ∈ effectiveDiffs s.editorResults s.tasks,
    Accepted fs s.config.targetWorkspacePath diff.path
  links : fs.SameLinks fs'
  /-- The tree between removing and writing. -/
  tree : ∃ t : Tree String String,
    (∀ q, Kept (erase fs.tree ((stalePaths s.editorResults s.tasks).map
      (locate fs s.config.targetWorkspacePath))) t q) ∧
    Writable t (writes (located fs s.config.targetWorkspacePath
      (effectiveDiffs s.editorResults s.tasks))) ∧
    fs'.tree = writeAll t (writes (located fs s.config.targetWorkspacePath
      (effectiveDiffs s.editorResults s.tasks)))

theorem stageEffect {written : List String}
    (hfree : LinkFree fs (fs.realpath s.config.targetWorkspacePath))
    (h : stageWorkspace fs s = (fs', .ok written)) : StageEffect s fs fs' := by
  rw [stageWorkspace] at h
  by_cases hstale : ∀ p ∈ stalePaths s.editorResults s.tasks,
      Accepted fs s.config.targetWorkspacePath p
  · obtain ⟨fsr, removed, hremove, htree, hlinks, hcwd⟩ := removePaths_of_accepted hfree hstale
    rw [hremove] at h
    dsimp only at h
    cases hmakedirs : fsr.makedirsPath s.config.targetWorkspacePath with
    | mk fs₁ outcome =>
      have hgrows := grows_makedirsPath fsr s.config.targetWorkspacePath
      rw [hmakedirs] at hgrows
      cases outcome with
      | error e => cases (applyDiffs_noRoot hmakedirs).symm.trans h
      | ok _ =>
        have hlinks₁ := hlinks.trans hgrows.sameLinks
        have hcwd₁ := hgrows.cwd.trans hcwd
        have happlied := batchApplied hmakedirs (hfree.realpath hlinks₁ hcwd₁)
          (effectiveDiffs s.editorResults s.tasks)
        rw [h] at happlied
        cases happlied with
        | written _ haccepted hall hwritten hlinks₂ =>
          rw [← located_congr hlinks₁ hcwd₁] at hall hwritten
          refine ⟨hstale, ?_, hlinks₁.trans hlinks₂, fs₁.tree, ?_, hall, hwritten⟩
          · exact fun diff hdiff => (accepted_congr hlinks₁ hcwd₁).mpr (haccepted diff hdiff)
          · intro q
            rw [← htree]
            exact hgrows.kept q
  · push Not at hstale
    obtain ⟨e, hremove⟩ := removePaths_of_refused hstale
    rw [hremove] at h
    cases h

namespace StageEffect

variable (h : StageEffect s fs fs')
include h

theorem contentAt_eq {before after : List FileDiff} {diff : FileDiff}
    (hdiffs : effectiveDiffs s.editorResults s.tasks = before ++ diff :: after)
    (hdiff : LeadsTo fs s.config.targetWorkspacePath diff.path loc)
    (hafter : ∀ later ∈ after, ¬ LeadsTo fs s.config.targetWorkspacePath later.path loc) :
    fs'.contentAt loc = some diff.content := by
  obtain ⟨t, -, hall, hwritten⟩ := h.tree
  refine (holdsLast_iff h.effective).mpr ?_ before diff after hdiffs loc hdiff hafter
  intro loc x hlast
  rw [← fileAt_tree, hwritten, fileAt_writeAll hall, hlast]
  rfl

theorem locate_ne (hno : ∀ diff ∈ effectiveDiffs s.editorResults s.tasks,
      ¬ LeadsTo fs s.config.targetWorkspacePath diff.path loc) :
    loc ∉ (writes (located fs s.config.targetWorkspacePath
      (effectiveDiffs s.editorResults s.tasks))).map Prod.fst := by
  intro hmem
  simp only [writes, located, List.map_map, List.mem_map, Function.comp_apply] at hmem
  obtain ⟨diff, hdiff, hloc⟩ := hmem
  exact hno diff hdiff ((leadsTo_iff (h.effective diff hdiff)).mpr hloc)

theorem contentAt_eq_none (hno : ∀ diff ∈ effectiveDiffs s.editorResults s.tasks,
      ¬ LeadsTo fs s.config.targetWorkspacePath diff.path loc)
    (hemitted : ∃ r ∈ s.editorResults, ∃ diff ∈ r.diffs,
      LeadsTo fs s.config.targetWorkspacePath diff.path loc) : fs'.contentAt loc = none := by
  obtain ⟨t, hkept, hall, hwritten⟩ := h.tree
  obtain ⟨r, hr, diff, hdiff, hlead⟩ := hemitted
  -- an effective diff of the same path would lead to the same location
  have hstale : diff.path ∈ stalePaths s.editorResults s.tasks := by
    refine mem_stalePaths.mpr ⟨⟨r, hr, diff, hdiff, rfl⟩, fun other hother hpath => ?_⟩
    exact hno other hother (hpath ▸ hlead)
  have hgone : fileAt (erase fs.tree ((stalePaths s.editorResults s.tasks).map
      (locate fs s.config.targetWorkspacePath))) loc = none := by
    rw [fileAt_erase, if_pos]
    exact List.mem_map.mpr ⟨diff.path, hstale, (resolveSafePath_ok hlead).2.symm⟩
  have hnone : fileAt t loc = none := by
    rcases hkept loc with hsame | ⟨-, hdir⟩
    · rwa [fileAt, hsame]
    · simp [fileAt, hdir]
  have hlast := last_eq_none_iff.mpr (h.locate_ne hno)
  rw [← fileAt_tree, hwritten, fileAt_writeAll hall, hlast, hnone]
  rfl

theorem kept (hno : ∀ r ∈ s.editorResults, ∀ diff ∈ r.diffs,
      ¬ LeadsTo fs s.config.targetWorkspacePath diff.path loc) : Kept fs.tree fs'.tree loc := by
  obtain ⟨t, hkept, hall, hwritten⟩ := h.tree
  have hnotStale : loc ∉ (stalePaths s.editorResults s.tasks).map
      (locate fs s.config.targetWorkspacePath) := by
    intro hmem
    obtain ⟨p, hp, hloc⟩ := List.mem_map.mp hmem
    obtain ⟨⟨r, hr, diff, hdiff, rfl⟩, -⟩ := mem_stalePaths.mp hp
    exact hno r hr diff hdiff ((leadsTo_iff (h.stale _ hp)).mpr hloc)
  have hnotEffective := h.locate_ne fun diff hdiff hlead => by
    obtain ⟨r, hr, hmem⟩ := emitted_of_effective hdiff
    exact hno r hr diff hmem hlead
  have herase : Kept fs.tree (erase fs.tree ((stalePaths s.editorResults s.tasks).map
      (locate fs s.config.targetWorkspacePath))) loc :=
    Or.inl (by rw [erase, if_neg fun hgone => hnotStale hgone.1])
  rw [hwritten]
  exact (herase.trans (hkept loc)).trans (kept_writeAll hall hnotEffective)

end StageEffect

/-- Whenever the stage comes through, every location holds the last effective diff for it, no
file if it was only emitted, and what it held before if it was not. -/
theorem stage_holds_effective_files (s : GraphState) (fs fs' : FileSystem) (written : List String)
    (hfree : LinkFree fs (fs.realpath s.config.targetWorkspacePath))
    (h : stageWorkspace fs s = (fs', .ok written)) (loc : Location) : StagedAt s fs fs' loc := by
  have heffect := stageEffect hfree h
  refine ⟨?_, ?_, ?_⟩
  · intro before diff after hdiffs hdiff hafter
    exact heffect.contentAt_eq hdiffs hdiff hafter
  · intro hno hemitted
    exact heffect.contentAt_eq_none hno hemitted
  · intro hno
    exact lookup_of_kept heffect.links (heffect.kept hno)

/-- The first attempt wrote two files; the second one writes the first of them again, under
another spelling, and leaves the second one out. -/
def respelledState : GraphState :=
  { config := demoConfig
    budget := unlimitedBudget
    tasks := [{ id := "t1", status := .succeeded }]
    editorResults := [⟨"t1", [⟨"a.py", "v1", true⟩, ⟨"helper.py", "h1", true⟩], "", 0⟩,
      ⟨"t1", [⟨"x/../a.py", "v2", true⟩], "", 0⟩] }

def respelledWorkspace : FileSystem :=
  workspaceWith [("a.py", "v1"), ("helper.py", "h1"), ("main.py", "m")]

theorem stage_holds_effective_files_respelled :
    (stageWorkspace respelledWorkspace respelledState).1.contentAt ["workspace", "a.py"] =
      some "v2" ∧
    (stageWorkspace respelledWorkspace respelledState).1.contentAt ["workspace", "helper.py"] =
      none := by
  have hfree : LinkFree respelledWorkspace (respelledWorkspace.realpath "/workspace") :=
    .of_noSymlinks (noSymlinks_of_entries (by decide +kernel)) _
  have hdone : (stageWorkspace respelledWorkspace respelledState).2 = .ok ["x/../a.py"] := by
    decide +kernel
  have hstage := FsResult.eq_mk hdone
  have hstaged := stage_holds_effective_files respelledState respelledWorkspace _ _ hfree hstage
  constructor
  · have hwritten := (hstaged ["workspace", "a.py"]).effective []
      ⟨"x/../a.py", "v2", true⟩ []
    apply hwritten
    · decide +kernel
    · unfold LeadsTo
      decide +kernel
    · simp
  · have hstale := (hstaged ["workspace", "helper.py"]).stale
    refine hstale ?_
      ⟨⟨"t1", [⟨"a.py", "v1", true⟩, ⟨"helper.py", "h1", true⟩], "", 0⟩, List.mem_cons_self,
        ⟨"helper.py", "h1", true⟩, by simp, ?_⟩
    all_goals
      unfold LeadsTo
      decide +kernel

end StackMigrate
