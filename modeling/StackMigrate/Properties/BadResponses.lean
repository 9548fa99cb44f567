import StackMigrate.Graph.Replay
import StackMigrate.Graph.Waves
import StackMigrate.Nodes.Extraction

/-!
# Responses that cannot be used

A call that raises is contained in all three nodes. A response without a parsed result gets
past the `try`, and the first access to it raises: in a file, in a branch and in the analysis.
-/

namespace StackMigrate

/-! ### Outcomes -/

namespace LlmOutcome

variable {α : Type}

def isUnparsed : LlmOutcome α → Bool
  | responded none _ _ _ => true
  | _ => false

def spentUsd : LlmOutcome α → ℚ
  | raised _ => 0
  | responded _ costUsd _ _ => costUsd

def parsed : LlmOutcome α → Option α
  | raised _ => none
  | responded result _ _ _ => result

end LlmOutcome

/-- The answers that are asked for before the money is used up. -/
def askedAnswers : ℚ → List ExtractionAnswer → List ExtractionAnswer
  | _, [] => []
  | remainingBudgetUsd, answer :: rest =>
    if remainingBudgetUsd ≤ 0 then []
    else answer :: askedAnswers (remainingBudgetUsd - answer.2.spentUsd) rest

/-- The files that the money does not reach. -/
def unaskedAnswers (remainingBudgetUsd : ℚ) (answers : List ExtractionAnswer) :
    List ExtractionAnswer :=
  answers.drop (askedAnswers remainingBudgetUsd answers).length

/-- What a unit takes over from the file it was found in. -/
abbrev ExtractedUnit := List String × SemanticUnitKind × UnitPayload

/-- The units of a file that parsed. -/
def ExtractionAnswer.units (answer : ExtractionAnswer) : List ExtractedUnit :=
  answer.2.parsed.toList.flatMap fun result =>
    result.units.map fun raw => ([answer.1.relativePath], raw.kind, raw.payload)

def PendingUnit.extracted (pu : PendingUnit) : ExtractedUnit :=
  ([pu.sourceRelativePath], pu.raw.kind, pu.raw.payload)

def SemanticUnit.extracted (u : SemanticUnit) : ExtractedUnit := (u.sourceFiles, u.kind, u.payload)

def failureNote (answer : ExtractionAnswer) : String :=
  "'" ++ answer.1.relativePath ++ "' could not be analyzed due to an extraction error."

def budgetNote (answer : ExtractionAnswer) : String :=
  "'" ++ answer.1.relativePath ++ "' was not analyzed: budget exhausted."

/-- The notes about an answer that was asked for. -/
def ExtractionAnswer.notes (answer : ExtractionAnswer) : List String :=
  match answer.2.parsed with
  | some result => result.ambiguities.map (answer.1.relativePath ++ ": " ++ ·)
  | none => [failureNote answer]

/-! ### The loop over the files -/

section Money

variable {left : ℚ} (answer : ExtractionAnswer) (rest : List ExtractionAnswer)

theorem askedAnswers_of_spent (h : left ≤ 0) : askedAnswers left (answer :: rest) = [] := by
  simp [askedAnswers, h]

theorem askedAnswers_cons (h : ¬ left ≤ 0) : askedAnswers left (answer :: rest) =
    answer :: askedAnswers (left - answer.2.spentUsd) rest := by
  simp [askedAnswers, h]

theorem unaskedAnswers_of_spent (h : left ≤ 0) :
    unaskedAnswers left (answer :: rest) = answer :: rest := by
  simp [unaskedAnswers, askedAnswers_of_spent, h]

theorem unaskedAnswers_cons (h : ¬ left ≤ 0) : unaskedAnswers left (answer :: rest) =
    unaskedAnswers (left - answer.2.spentUsd) rest := by
  simp [unaskedAnswers, askedAnswers_cons, h]

end Money

theorem extracted_assignUnits (relativePath : String) (raws : List RawExtractedUnit)
    (usedIds : List String) :
    (assignUnits relativePath raws usedIds).1.map PendingUnit.extracted =
      raws.map fun raw => ([relativePath], raw.kind, raw.payload) := by
  induction raws generalizing usedIds with
  | nil => rfl
  | cons raw rest ih => simp [assignUnits, ih, PendingUnit.extracted]

/-- What the loop does with an answer that it has asked for. -/
def ExtractionState.record (st : ExtractionState) : ExtractionAnswer → ExtractionState
  | (file, .raised exc) => st.recordFailure file exc
  | (_, .responded none _ _ _) => st
  | (file, .responded (some result) costUsd _ _) => st.recordResult file result costUsd

/-- The end of the loop, with the answers that it has not asked for. -/
def ExtractionState.stopAt (st : ExtractionState) (files : List DiscoveredFile) :
    List ExtractionAnswer → ExtractionState
  | [] => st
  | answer :: _ => st.stop files answer.1

/-- The loop has gone from `st` to `st'`: the units and notes of each file it asked about, and
one note about the file it stopped at. -/
structure Extracted (asked unasked : List ExtractionAnswer) (st st' : ExtractionState) : Prop where
  units : st'.pendingUnits.map PendingUnit.extracted =
    st.pendingUnits.map PendingUnit.extracted ++ asked.flatMap ExtractionAnswer.units
  notes : st'.ambiguities = st.ambiguities ++ asked.flatMap ExtractionAnswer.notes ++
    (unasked.take 1).map budgetNote

/-- One turn of the loop, with a response that can be used. -/
theorem extractFiles_cons (files : List DiscoveredFile) {remainingBudgetUsd : ℚ}
    {answer : ExtractionAnswer} {st : ExtractionState} (rest : List ExtractionAnswer)
    (hspent : ¬ remainingBudgetUsd ≤ st.totalCost) (hparsed : answer.2.isUnparsed = false) :
    extractFiles files remainingBudgetUsd (answer :: rest) st =
      extractFiles files remainingBudgetUsd rest (st.record answer) := by
  obtain ⟨file, outcome⟩ := answer
  cases outcome with
  | raised exc =>
    rw [extractFiles, if_neg hspent]
    rfl
  | responded result costUsd inputTokens outputTokens =>
    cases result with
    | none => cases hparsed
    | some result =>
      rw [extractFiles, if_neg hspent]
      rfl

theorem extractFiles_of_spent (files : List DiscoveredFile) {remainingBudgetUsd : ℚ}
    {st : ExtractionState} (answer : ExtractionAnswer) (rest : List ExtractionAnswer)
    (hspent : remainingBudgetUsd ≤ st.totalCost) :
    extractFiles files remainingBudgetUsd (answer :: rest) st = (st.stop files answer.1, .ok ()) := by
  unfold extractFiles
  exact if_pos hspent

theorem totalCost_record (st : ExtractionState) {answer : ExtractionAnswer}
    (hparsed : answer.2.isUnparsed = false) :
    (st.record answer).totalCost = st.totalCost + answer.2.spentUsd := by
  obtain ⟨file, outcome⟩ := answer
  cases outcome with
  | raised exc => exact (add_zero _).symm
  | responded result costUsd inputTokens outputTokens =>
    cases result with
    | none => cases hparsed
    | some result => rfl

/-- The loop over answers that are all usable: each one that is asked for is recorded, and the
one that the money does not reach is noted. -/
theorem extractFiles_eq_foldl (files : List DiscoveredFile) {remainingBudgetUsd left : ℚ}
    {answers : List ExtractionAnswer} {st : ExtractionState}
    (hleft : left = remainingBudgetUsd - st.totalCost)
    (h : ∀ answer ∈ askedAnswers left answers, answer.2.isUnparsed = false) :
    extractFiles files remainingBudgetUsd answers st =
      (((askedAnswers left answers).foldl ExtractionState.record st).stopAt files
        (unaskedAnswers left answers), .ok ()) := by
  induction answers generalizing st left with
  | nil => rfl
  | cons answer rest ih =>
    have hstop : remainingBudgetUsd ≤ st.totalCost ↔ left ≤ 0 := by rw [hleft, sub_nonpos]
    by_cases hspent : left ≤ 0
    · rw [askedAnswers_of_spent _ _ hspent, unaskedAnswers_of_spent _ _ hspent,
        extractFiles_of_spent files answer rest (hstop.mpr hspent)]
      rfl
    · rw [askedAnswers_cons _ _ hspent] at h
      have hparsed := h answer (by simp)
      have hleft' : left - answer.2.spentUsd =
          remainingBudgetUsd - (st.record answer).totalCost := by
        rw [totalCost_record st hparsed, hleft, sub_sub]
      rw [extractFiles_cons files rest (mt hstop.mp hspent) hparsed,
        askedAnswers_cons _ _ hspent, unaskedAnswers_cons _ _ hspent, List.foldl_cons]
      exact ih hleft' fun answer hanswer => h answer (List.mem_cons_of_mem _ hanswer)

theorem extracted_record (st : ExtractionState) {answer : ExtractionAnswer}
    (h : answer.2.isUnparsed = false) :
    (st.record answer).pendingUnits.map PendingUnit.extracted =
        st.pendingUnits.map PendingUnit.extracted ++ answer.units ∧
      (st.record answer).ambiguities = st.ambiguities ++ answer.notes := by
  obtain ⟨file, outcome⟩ := answer
  cases outcome with
  | raised exc =>
    exact ⟨by simp [ExtractionState.record, ExtractionState.recordFailure, ExtractionAnswer.units,
      LlmOutcome.parsed], rfl⟩
  | responded result costUsd inputTokens outputTokens =>
    cases result with
    | none => cases h
    | some result =>
      exact ⟨by simp [ExtractionState.record, ExtractionState.recordResult,
        ExtractionAnswer.units, LlmOutcome.parsed, extracted_assignUnits], rfl⟩

theorem extracted_foldl_record {asked : List ExtractionAnswer} (st : ExtractionState)
    (h : ∀ answer ∈ asked, answer.2.isUnparsed = false) :
    Extracted asked [] st (asked.foldl ExtractionState.record st) := by
  induction asked generalizing st with
  | nil => exact ⟨by simp, by simp⟩
  | cons answer rest ih =>
    obtain ⟨hunits, hnotes⟩ := extracted_record st (h answer (by simp))
    have hrest := ih (st.record answer) fun answer hanswer => h answer (by simp [hanswer])
    exact ⟨by rw [List.foldl_cons, hrest.units, hunits, List.flatMap_cons, List.append_assoc],
      by rw [List.foldl_cons, hrest.notes, hnotes, List.flatMap_cons, List.append_assoc,
        List.append_assoc, List.append_assoc, List.append_assoc]⟩

theorem extracted_extractFiles (files : List DiscoveredFile) {remainingBudgetUsd left : ℚ}
    {answers : List ExtractionAnswer} {st : ExtractionState}
    (hleft : left = remainingBudgetUsd - st.totalCost)
    (h : ∀ answer ∈ askedAnswers left answers, answer.2.isUnparsed = false) :
    ∃ st', extractFiles files remainingBudgetUsd answers st = (st', .ok ()) ∧
      Extracted (askedAnswers left answers) (unaskedAnswers left answers) st st' := by
  refine ⟨_, extractFiles_eq_foldl files hleft h, ?_⟩
  have hasked := extracted_foldl_record st h
  cases unaskedAnswers left answers with
  | nil => exact hasked
  | cons answer rest =>
    refine ⟨hasked.units, ?_⟩
    change _ ++ [budgetNote answer] = _
    rw [hasked.notes]
    simp

/-- One response that cannot be used and the loop raises. -/
theorem extractFiles_crashed (files : List DiscoveredFile) {remainingBudgetUsd left : ℚ}
    {answers : List ExtractionAnswer} {st : ExtractionState}
    (hleft : left = remainingBudgetUsd - st.totalCost)
    (h : ∃ answer ∈ askedAnswers left answers, answer.2.isUnparsed = true) :
    ∃ st' exc, extractFiles files remainingBudgetUsd answers st = (st', .error exc) := by
  induction answers generalizing st left with
  | nil => simp [askedAnswers] at h
  | cons answer rest ih =>
    have hstop : remainingBudgetUsd ≤ st.totalCost ↔ left ≤ 0 := by rw [hleft, sub_nonpos]
    by_cases hspent : left ≤ 0
    · simp [askedAnswers_of_spent _ _ hspent] at h
    · rw [askedAnswers_cons _ _ hspent] at h
      cases hparsed : answer.2.isUnparsed with
      | true =>
        obtain ⟨file, outcome⟩ := answer
        cases outcome with
        | raised exc => cases hparsed
        | responded result costUsd inputTokens outputTokens =>
          cases result with
          | none =>
            rw [extractFiles, if_neg (mt hstop.mp hspent)]
            exact ⟨_, _, rfl⟩
          | some result => cases hparsed
      | false =>
        have hleft' : left - answer.2.spentUsd =
            remainingBudgetUsd - (st.record answer).totalCost := by
          rw [totalCost_record st hparsed, hleft, sub_sub]
        rw [extractFiles_cons files rest (mt hstop.mp hspent) hparsed]
        obtain ⟨bad, hmem, hunparsed⟩ := h
        rcases List.mem_cons.mp hmem with rfl | hlater
        · cases hunparsed.symm.trans hparsed
        · exact ih hleft' ⟨bad, hlater, hunparsed⟩

/-! ### Failures that stay where they happened -/

/-- `run_comprehension` returns with the units of the files that parsed and has every other
file it asked about on record, and the one it stopped at. -/
def ContainsFailures (remainingBudgetUsd : ℚ) (answers : List ExtractionAnswer)
    (out : Except PyException ComprehensionRun) : Prop :=
  ∃ run, out = .ok run ∧
    run.result.units.map SemanticUnit.extracted =
      (askedAnswers remainingBudgetUsd answers).flatMap ExtractionAnswer.units ∧
    (∀ answer ∈ askedAnswers remainingBudgetUsd answers, answer.2.parsed = none →
      failureNote answer ∈ run.result.unresolvedAmbiguities) ∧
    ∀ answer ∈ (unaskedAnswers remainingBudgetUsd answers).take 1,
      budgetNote answer ∈ run.result.unresolvedAmbiguities

/-- The stack has an adapter, and no response among those asked for is without a result. -/
def ResponsesUsable (sourceStack : String) (remainingBudgetUsd : ℚ)
    (answers : List ExtractionAnswer) : Prop :=
  getSourceAdapter sourceStack = .ok () ∧
    ∀ answer ∈ askedAnswers remainingBudgetUsd answers, answer.2.isUnparsed = false

section Comprehension

variable [UnicodeData] {repoRoot scopeDescription sourceStack : String} {remainingBudgetUsd : ℚ}
  {answers : List ExtractionAnswer}

theorem containsFailures_of_usable (h : ResponsesUsable sourceStack remainingBudgetUsd answers) :
    ContainsFailures remainingBudgetUsd answers
      (runComprehension repoRoot scopeDescription sourceStack remainingBudgetUsd answers).2 := by
  obtain ⟨hadapter, hparsed⟩ := h
  obtain ⟨notes, hends⟩ := runComprehension_of_loop repoRoot scopeDescription remainingBudgetUsd
    answers hadapter
  have hstart : remainingBudgetUsd =
      remainingBudgetUsd - ({ ambiguities := notes } : ExtractionState).totalCost :=
    (sub_zero _).symm
  obtain ⟨st', hloop, hst⟩ := extracted_extractFiles (answers.map Prod.fst) hstart hparsed
  obtain ⟨run, hrun, hunits, hnotes, -⟩ := (hends st').2 hloop
  refine ⟨run, congrArg Prod.snd hrun, ?_, ?_, ?_⟩
  · have hextracted : SemanticUnit.extracted ∘ semanticUnit st'.pendingUnits =
        PendingUnit.extracted := rfl
    rw [hunits, List.map_map, hextracted, hst.units]
    rfl
  · intro answer hanswer hnone
    have hnote : failureNote answer ∈ answer.notes := by simp [ExtractionAnswer.notes, hnone]
    simp only [hnotes, hst.notes, List.mem_append, List.mem_flatMap]
    exact Or.inl (Or.inl (Or.inr ⟨answer, hanswer, hnote⟩))
  · intro answer hanswer
    simp only [hnotes, hst.notes, List.mem_append, List.mem_map]
    exact Or.inl (Or.inr ⟨answer, hanswer, rfl⟩)

theorem runComprehension_error (h : ¬ ResponsesUsable sourceStack remainingBudgetUsd answers) :
    ∃ exc, (runComprehension repoRoot scopeDescription sourceStack remainingBudgetUsd answers).2 =
      .error exc := by
  cases hadapter : getSourceAdapter sourceStack with
  | error exc => exact ⟨exc, by rw [runComprehension, hadapter]⟩
  | ok =>
    obtain ⟨notes, hends⟩ := runComprehension_of_loop repoRoot scopeDescription
      remainingBudgetUsd answers hadapter
    have hstart : remainingBudgetUsd =
        remainingBudgetUsd - ({ ambiguities := notes } : ExtractionState).totalCost :=
      (sub_zero _).symm
    have hunparsed : ∃ answer ∈ askedAnswers remainingBudgetUsd answers,
        answer.2.isUnparsed = true := by
      by_contra hnone
      push Not at hnone
      exact h ⟨hadapter, fun answer hanswer => by simpa using hnone answer hanswer⟩
    obtain ⟨st', exc, hloop⟩ := extractFiles_crashed (answers.map Prod.fst) hstart hunparsed
    exact ⟨exc, congrArg Prod.snd ((hends st').1 exc hloop)⟩

end Comprehension

section Crash

attribute [local instance] asciiTables

end Crash

end StackMigrate
