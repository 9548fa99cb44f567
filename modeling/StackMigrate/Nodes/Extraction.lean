import StackMigrate.Nodes.Comprehension

/-!
# The extraction loop

One rule for the loop over the files: what every way of recording an answer preserves holds
where the loop ends, be it behind the last file, at the stop for money, or at the response
that cannot be used.
-/

namespace StackMigrate

/-- What holds of `st` and is preserved by the loop, with what follows from it at each of
the three exits. -/
theorem extractFiles_rule {files : List DiscoveredFile} {remainingBudgetUsd : ℚ}
    {I : ExtractionState → Prop} {P : ExtractionState × Except PyException Unit → Prop}
    (hdone : ∀ st, I st → P (st, .ok ()))
    (hstop : ∀ st file, remainingBudgetUsd ≤ st.totalCost → I st → P (st.stop files file, .ok ()))
    (hcrash : ∀ st (file : DiscoveredFile) costUsd exc, I st →
      P ({ st with calls := st.calls ++ [⟨file.relativePath, some costUsd⟩] }, .error exc))
    (hfailure : ∀ st file exc, I st → I (st.recordFailure file exc))
    (hresult : ∀ st file result costUsd, st.totalCost < remainingBudgetUsd → I st →
      I (st.recordResult file result costUsd))
    (answers : List ExtractionAnswer) {st : ExtractionState} (hst : I st) :
    P (extractFiles files remainingBudgetUsd answers st) := by
  induction answers generalizing st with
  | nil => exact hdone st hst
  | cons answer rest ih =>
    obtain ⟨file, outcome⟩ := answer
    unfold extractFiles
    split_ifs with hleft
    · exact hstop st file hleft hst
    · cases outcome with
      | raised exc => exact ih (hfailure st file exc hst)
      | responded result costUsd inputTokens outputTokens =>
        cases result with
        | none => exact hcrash st file costUsd _ hst
        | some result => exact ih (hresult st file result costUsd (not_le.mp hleft) hst)

/-- A loop that stops early has spent what was left. -/
theorem remaining_le_of_stoppedEarly {files : List DiscoveredFile} {remainingBudgetUsd : ℚ}
    {answers : List ExtractionAnswer} {st : ExtractionState} (hst : st.stoppedEarly = false)
    (hstopped : (extractFiles files remainingBudgetUsd answers st).1.stoppedEarly = true) :
    remainingBudgetUsd ≤ (extractFiles files remainingBudgetUsd answers st).1.totalCost := by
  revert hstopped
  refine extractFiles_rule (I := fun st => st.stoppedEarly = false)
    (P := fun r => r.1.stoppedEarly = true → remainingBudgetUsd ≤ r.1.totalCost)
    ?_ ?_ ?_ ?_ ?_ answers hst
  · intro st hI hstop
    rw [hI] at hstop
    cases hstop
  · intro st file hleft _ _
    exact hleft
  · intro st file costUsd exc hI hstop
    rw [hI] at hstop
    cases hstop
  · intro st file exc hI
    exact hI
  · intro st file result costUsd _ hI
    exact hI

/-- The running total of a loop that comes through is what its calls cost. -/
theorem totalCost_eq_sum {files : List DiscoveredFile} {remainingBudgetUsd : ℚ}
    {answers : List ExtractionAnswer} {st st' : ExtractionState}
    (hst : st.totalCost = (st.calls.filterMap ExtractionCall.costUsd).sum)
    (h : extractFiles files remainingBudgetUsd answers st = (st', .ok ())) :
    st'.totalCost = (st'.calls.filterMap ExtractionCall.costUsd).sum := by
  have hrule : (extractFiles files remainingBudgetUsd answers st).2 = .ok () →
      (extractFiles files remainingBudgetUsd answers st).1.totalCost =
        ((extractFiles files remainingBudgetUsd answers st).1.calls.filterMap
          ExtractionCall.costUsd).sum := by
    refine extractFiles_rule
      (I := fun st => st.totalCost = (st.calls.filterMap ExtractionCall.costUsd).sum)
      (P := fun r => r.2 = .ok () →
        r.1.totalCost = (r.1.calls.filterMap ExtractionCall.costUsd).sum)
      ?_ ?_ ?_ ?_ ?_ answers hst
    · intro st hI _
      exact hI
    · intro st file _ hI _
      exact hI
    · intro st file costUsd exc _ herror
      cases herror
    · intro st file exc hI
      simpa [ExtractionState.recordFailure] using hI
    · intro st file result costUsd _ hI
      simp [ExtractionState.recordResult, hI]
  rw [h] at hrule
  exact hrule rfl

section Run

variable [UnicodeData] (repoRoot scopeDescription : String) {sourceStack : String}
  (remainingBudgetUsd : ℚ) (answers : List ExtractionAnswer)

/-- What `run_comprehension` makes of either end of the loop. -/
theorem runComprehension_of_loop (hadapter : getSourceAdapter sourceStack = .ok ()) :
    ∃ notes, ∀ st,
      (∀ exc, extractFiles (answers.map Prod.fst) remainingBudgetUsd answers
          { ambiguities := notes } = (st, .error exc) →
        runComprehension repoRoot scopeDescription sourceStack remainingBudgetUsd answers =
          (st, .error exc)) ∧
      (extractFiles (answers.map Prod.fst) remainingBudgetUsd answers
          { ambiguities := notes } = (st, .ok ()) →
        ∃ run, runComprehension repoRoot scopeDescription sourceStack remainingBudgetUsd answers =
            (st, .ok run) ∧
          run.result.units = st.pendingUnits.map (semanticUnit st.pendingUnits) ∧
          run.result.unresolvedAmbiguities =
            st.ambiguities ++ st.pendingUnits.flatMap (referenceNotes st.pendingUnits) ∧
          run.totalCost = st.totalCost) := by
  unfold runComprehension
  rw [hadapter]
  dsimp only
  generalize (if (answers.map Prod.fst).isEmpty then _ else _ : List String) = noFiles
  refine ⟨noFiles, fun st => ⟨fun exc hloop => ?_, fun hloop => ?_⟩⟩
  · rw [hloop]
  · rw [hloop]
    exact ⟨_, rfl, rfl, rfl, rfl⟩

variable {repoRoot scopeDescription remainingBudgetUsd answers} {st : ExtractionState}
  {run : ComprehensionRun}

/-- A comprehension that comes through has run the loop on all files from the start; the notes
of the reference pass stand behind those of the extraction pass. -/
theorem runComprehension_ok
    (h : runComprehension repoRoot scopeDescription sourceStack remainingBudgetUsd answers =
      (st, .ok run)) :
    ∃ notes, extractFiles (answers.map Prod.fst) remainingBudgetUsd answers
        { ambiguities := notes } = (st, .ok ()) ∧
      run.result.units = st.pendingUnits.map (semanticUnit st.pendingUnits) ∧
      run.result.unresolvedAmbiguities =
        st.ambiguities ++ st.pendingUnits.flatMap (referenceNotes st.pendingUnits) ∧
      run.totalCost = st.totalCost := by
  cases hadapter : getSourceAdapter sourceStack with
  | error exc =>
    rw [runComprehension, hadapter] at h
    cases h
  | ok =>
    obtain ⟨notes, hends⟩ := runComprehension_of_loop repoRoot scopeDescription
      remainingBudgetUsd answers hadapter
    rcases hloop : extractFiles (answers.map Prod.fst) remainingBudgetUsd answers
      { ambiguities := notes } with ⟨st', exc | _⟩
    · cases h.symm.trans ((hends st').1 exc hloop)
    · obtain ⟨run', hrun', hparts⟩ := (hends st').2 hloop
      cases h.symm.trans hrun'
      exact ⟨notes, hloop, hparts⟩

/-- What the naming of a file's units preserves holds of the units of a comprehension that
comes through. -/
theorem pendingUnits_rule {I : List PendingUnit → List String → Prop} (hempty : I [] [])
    (hassign : ∀ pendingUnits usedIds relativePath raws, I pendingUnits usedIds →
      I (pendingUnits ++ (assignUnits relativePath raws usedIds).1)
        (assignUnits relativePath raws usedIds).2)
    (h : runComprehension repoRoot scopeDescription sourceStack remainingBudgetUsd answers =
      (st, .ok run)) : I st.pendingUnits st.usedIds := by
  obtain ⟨notes, hloop, -⟩ := runComprehension_ok h
  have hrule : I (extractFiles (answers.map Prod.fst) remainingBudgetUsd answers
      { ambiguities := notes }).1.pendingUnits (extractFiles (answers.map Prod.fst)
      remainingBudgetUsd answers { ambiguities := notes }).1.usedIds := by
    refine extractFiles_rule (I := fun st => I st.pendingUnits st.usedIds)
      (P := fun r => I r.1.pendingUnits r.1.usedIds) ?_ ?_ ?_ ?_ ?_ answers hempty
    · exact fun st hI => hI
    · exact fun st file _ hI => hI
    · exact fun st file costUsd exc hI => hI
    · exact fun st file exc hI => hI
    · exact fun st file result costUsd _ hI => hassign _ _ file.relativePath result.units hI
  rwa [hloop] at hrule

end Run

end StackMigrate
