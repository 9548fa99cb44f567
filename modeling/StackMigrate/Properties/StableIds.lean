import StackMigrate.Nodes.UnitIds
import StackMigrate.Properties.BadResponses

/-!
# Stable unit ids

The ids of a run are a function of the kinds and names of its units in their order: each unit
gets the first candidate that no unit before it has. So the files that come later, and whether
there is money for them, make no difference to the ids that were given before.
-/

namespace StackMigrate

/-- The raw units of a file, if it parsed. -/
def ExtractionAnswer.rawUnits (answer : ExtractionAnswer) : List RawExtractedUnit :=
  answer.2.parsed.toList.flatMap FileExtractionResult.units

/-- The raw units of all files that the money reaches. -/
def rawUnits (remainingBudgetUsd : ℚ) (answers : List ExtractionAnswer) : List RawExtractedUnit :=
  (askedAnswers remainingBudgetUsd answers).flatMap ExtractionAnswer.rawUnits

/-! ### The files in front -/

theorem prefix_askedAnswers (left : ℚ) (first later : List ExtractionAnswer) :
    askedAnswers left first <+: askedAnswers left (first ++ later) := by
  induction first generalizing left with
  | nil => exact List.nil_prefix
  | cons answer rest ih =>
    rw [List.cons_append]
    by_cases hspent : left ≤ 0
    · rw [askedAnswers_of_spent _ _ hspent]
      exact List.nil_prefix
    · rw [askedAnswers_cons _ _ hspent, askedAnswers_cons _ _ hspent]
      exact (List.prefix_cons_inj answer).mpr (ih _)

theorem prefix_unitIds {raws raws' : List RawExtractedUnit} (h : raws <+: raws') :
    unitIds [] raws <+: unitIds [] raws' := by
  obtain ⟨later, rfl⟩ := h
  rw [unitIds_append]
  exact List.prefix_append _ _

theorem prefix_rawUnits (remainingBudgetUsd : ℚ) (first later : List ExtractionAnswer) :
    rawUnits remainingBudgetUsd first <+: rawUnits remainingBudgetUsd (first ++ later) := by
  obtain ⟨asked, hasked⟩ := prefix_askedAnswers remainingBudgetUsd first later
  rw [rawUnits, rawUnits, ← hasked, List.flatMap_append]
  exact List.prefix_append _ _

theorem ResponsesUsable.of_append {sourceStack : String} {remainingBudgetUsd : ℚ}
    {first later : List ExtractionAnswer}
    (h : ResponsesUsable sourceStack remainingBudgetUsd (first ++ later)) :
    ResponsesUsable sourceStack remainingBudgetUsd first :=
  ⟨h.1, fun answer hanswer =>
    h.2 answer ((prefix_askedAnswers remainingBudgetUsd first later).subset hanswer)⟩

/-! ### The loop -/

/-- The loop has come through these units and given each its id. -/
structure NumberedInOrder (raws : List RawExtractedUnit) (st : ExtractionState) : Prop where
  pending : st.pendingUnits.map PendingUnit.raw = raws
  ids : st.pendingUnits.map PendingUnit.assignedId = unitIds [] raws
  usedIds : st.usedIds = unitIds [] raws

namespace NumberedInOrder

variable {raws : List RawExtractedUnit} {st : ExtractionState}

theorem recordResult (h : NumberedInOrder raws st) (file : DiscoveredFile)
    (result : FileExtractionResult) (costUsd : ℚ) :
    NumberedInOrder (raws ++ result.units) (st.recordResult file result costUsd) := by
  obtain ⟨hraws, hids, hused⟩ := assignUnits_eq file.relativePath result.units st.usedIds
  have happend : unitIds [] (raws ++ result.units) =
      unitIds [] raws ++ unitIds st.usedIds result.units := by
    rw [unitIds_append, h.usedIds, List.nil_append]
  constructor
  · rw [ExtractionState.recordResult, List.map_append, h.pending, hraws]
  · rw [ExtractionState.recordResult, List.map_append, h.ids, hids, happend]
  · rw [ExtractionState.recordResult, hused, happend, h.usedIds]

theorem record (h : NumberedInOrder raws st) (answer : ExtractionAnswer) :
    NumberedInOrder (raws ++ answer.rawUnits) (st.record answer) := by
  obtain ⟨file, outcome⟩ := answer
  cases outcome with
  | raised exc =>
    simp only [ExtractionAnswer.rawUnits, LlmOutcome.parsed, Option.toList_none,
      List.flatMap_nil, List.append_nil]
    exact ⟨h.pending, h.ids, h.usedIds⟩
  | responded result costUsd inputTokens outputTokens =>
    cases result with
    | none => simpa [ExtractionAnswer.rawUnits, LlmOutcome.parsed, ExtractionState.record] using h
    | some result =>
      simpa [ExtractionAnswer.rawUnits, LlmOutcome.parsed, ExtractionState.record] using
        h.recordResult file result costUsd

theorem foldl_record (h : NumberedInOrder raws st) (asked : List ExtractionAnswer) :
    NumberedInOrder (raws ++ asked.flatMap ExtractionAnswer.rawUnits)
      (asked.foldl ExtractionState.record st) := by
  induction asked generalizing raws st with
  | nil => simpa using h
  | cons answer rest ih => simpa using ih (h.record answer)

theorem stopAt (h : NumberedInOrder raws st) (files : List DiscoveredFile)
    (unasked : List ExtractionAnswer) : NumberedInOrder raws (st.stopAt files unasked) := by
  cases unasked with
  | nil => exact h
  | cons answer rest => exact ⟨h.pending, h.ids, h.usedIds⟩

end NumberedInOrder

section Run

variable [UnicodeData] {repoRoot scopeDescription sourceStack : String} {remainingBudgetUsd : ℚ}
  {answers : List ExtractionAnswer} {st : ExtractionState} {run : ComprehensionRun}

theorem exists_run_of_usable (h : ResponsesUsable sourceStack remainingBudgetUsd answers) :
    ∃ st run, runComprehension repoRoot scopeDescription sourceStack remainingBudgetUsd answers =
      (st, .ok run) := by
  have hcontains : ContainsFailures remainingBudgetUsd answers
      (runComprehension repoRoot scopeDescription sourceStack remainingBudgetUsd answers).2 :=
    containsFailures_of_usable h
  obtain ⟨run, hrun, -⟩ := hcontains
  exact ⟨_, run, Prod.ext rfl hrun⟩

theorem usable_of_run
    (h : runComprehension repoRoot scopeDescription sourceStack remainingBudgetUsd answers =
      (st, .ok run)) : ResponsesUsable sourceStack remainingBudgetUsd answers := by
  by_contra hnot
  have herror : ∃ exc, (runComprehension repoRoot scopeDescription sourceStack
      remainingBudgetUsd answers).2 = .error exc := runComprehension_error hnot
  obtain ⟨exc, hexc⟩ := herror
  rw [h] at hexc
  cases hexc

theorem numberedInOrder_of_run
    (h : runComprehension repoRoot scopeDescription sourceStack remainingBudgetUsd answers =
      (st, .ok run)) : NumberedInOrder (rawUnits remainingBudgetUsd answers) st := by
  obtain ⟨notes, hloop, -⟩ := runComprehension_ok h
  have hstart : remainingBudgetUsd =
      remainingBudgetUsd - ({ ambiguities := notes } : ExtractionState).totalCost :=
    (sub_zero _).symm
  have hfold := extractFiles_eq_foldl (answers.map Prod.fst) hstart (usable_of_run h).2
  have hempty : NumberedInOrder [] ({ ambiguities := notes } : ExtractionState) := ⟨rfl, rfl, rfl⟩
  rw [hloop] at hfold
  obtain rfl := congrArg Prod.fst hfold
  exact (hempty.foldl_record _).stopAt _ _

/-- The ids of a run are those of its units in their order. -/
theorem ids_of_run
    (h : runComprehension repoRoot scopeDescription sourceStack remainingBudgetUsd answers =
      (st, .ok run)) :
    run.result.units.map SemanticUnit.id = unitIds [] (rawUnits remainingBudgetUsd answers) := by
  obtain ⟨-, -, hunits, -⟩ := runComprehension_ok h
  have hid : SemanticUnit.id ∘ semanticUnit st.pendingUnits = PendingUnit.assignedId := rfl
  rw [hunits, List.map_map, hid]
  exact (numberedInOrder_of_run h).ids

theorem extracted_of_run
    (h : runComprehension repoRoot scopeDescription sourceStack remainingBudgetUsd answers =
      (st, .ok run)) :
    run.result.units.map SemanticUnit.extracted =
      (askedAnswers remainingBudgetUsd answers).flatMap ExtractionAnswer.units := by
  have hcontains : ContainsFailures remainingBudgetUsd answers
      (runComprehension repoRoot scopeDescription sourceStack remainingBudgetUsd answers).2 :=
    containsFailures_of_usable (usable_of_run h)
  obtain ⟨run', hrun', hextracted, -⟩ := hcontains
  rw [h] at hrun'
  cases hrun'
  exact hextracted

/-- The run on the files in front returns as well, with the same ids. -/
theorem ids_prefix_of_run {later : List ExtractionAnswer}
    (h : runComprehension repoRoot scopeDescription sourceStack remainingBudgetUsd
      (answers ++ later) = (st, .ok run)) :
    ∃ st' run', runComprehension repoRoot scopeDescription sourceStack remainingBudgetUsd answers =
      (st', .ok run') ∧
      run'.result.units.map SemanticUnit.id <+: run.result.units.map SemanticUnit.id := by
  have hfirst : ∃ st' run', runComprehension repoRoot scopeDescription sourceStack
      remainingBudgetUsd answers = (st', .ok run') :=
    exists_run_of_usable (usable_of_run h).of_append
  obtain ⟨st', run', hrun'⟩ := hfirst
  refine ⟨st', run', hrun', ?_⟩
  rw [ids_of_run h, ids_of_run hrun']
  exact prefix_unitIds (prefix_rawUnits remainingBudgetUsd answers later)

end Run

/-! ### Unique and stable -/

/-- For all units: the search for an id ends, a run that returns has one unit with an id of its
own for each raw unit, and the ids are those that the files in front get without the rest. -/
theorem unitIds_unique_and_stable [UnicodeData] (repoRoot scopeDescription sourceStack : String)
    (remainingBudgetUsd : ℚ) :
    -- the search ends, with the id of the model and no other
    (∀ kindValue name usedIds unitId,
      SuffixSearch (kindValue ++ "::" ++ slugify name) usedIds
        (kindValue ++ "::" ++ slugify name) 2 unitId ↔ unitId = assignId kindValue name usedIds) ∧
    (∀ answers, ResponsesUsable sourceStack remainingBudgetUsd answers →
      ∃ st run, runComprehension repoRoot scopeDescription sourceStack remainingBudgetUsd answers =
        (st, .ok run)) ∧
    (∀ answers st run,
      runComprehension repoRoot scopeDescription sourceStack remainingBudgetUsd answers =
        (st, .ok run) →
      run.result.units.map SemanticUnit.extracted =
          (askedAnswers remainingBudgetUsd answers).flatMap ExtractionAnswer.units ∧
        run.result.units.map SemanticUnit.id =
          unitIds [] (rawUnits remainingBudgetUsd answers) ∧
        (run.result.units.map SemanticUnit.id).Nodup) ∧
    ∀ first later st run,
      runComprehension repoRoot scopeDescription sourceStack remainingBudgetUsd (first ++ later) =
        (st, .ok run) →
      ∃ st' run',
        runComprehension repoRoot scopeDescription sourceStack remainingBudgetUsd first =
          (st', .ok run') ∧
        run'.result.units.map SemanticUnit.id <+: run.result.units.map SemanticUnit.id := by
  refine ⟨fun _ _ _ _ => suffixSearch_iff, fun _ => exists_run_of_usable, ?_, ?_⟩
  · intro answers st run h
    refine ⟨extracted_of_run h, ids_of_run h, ?_⟩
    rw [ids_of_run h]
    exact nodup_unitIds _
  · exact fun _ _ _ _ => ids_prefix_of_run

section Collision

attribute [local instance] asciiTables

/-- The second class of a name takes the suffix that the name of the third one ends with. -/
def orderFiles : List ExtractionAnswer := [serviceFile "Order" [], serviceFile "order" []]

theorem askedAnswers_orderFiles : askedAnswers 5 (orderFiles ++ [serviceFile "Order_2" []]) =
    orderFiles ++ [serviceFile "Order_2" []] := by
  norm_num [askedAnswers, orderFiles, serviceFile, LlmOutcome.spentUsd]

theorem unitIds_unique_and_stable_orders : ∃ st run,
    runComprehension "" "orders" "springboot" 5 (orderFiles ++ [serviceFile "Order_2" []]) =
      (st, .ok run) ∧
    run.result.units.map SemanticUnit.id =
      ["service::order", "service::order_2", "service::order_2_2"] ∧
    (run.result.units.map SemanticUnit.id).Nodup ∧
    ∃ st' run', runComprehension "" "orders" "springboot" 5 orderFiles = (st', .ok run') ∧
      run'.result.units.map SemanticUnit.id <+: run.result.units.map SemanticUnit.id := by
  obtain ⟨-, hreturns, hunits, hstable⟩ := unitIds_unique_and_stable "" "orders" "springboot" 5
  have husable : ResponsesUsable "springboot" 5 (orderFiles ++ [serviceFile "Order_2" []]) := by
    refine ⟨rfl, ?_⟩
    rw [askedAnswers_orderFiles]
    simp [orderFiles, serviceFile, LlmOutcome.isUnparsed]
  obtain ⟨st, run, hrun⟩ := hreturns _ husable
  obtain ⟨-, hids, hnd⟩ := hunits _ st run hrun
  refine ⟨st, run, hrun, ?_, hnd, hstable orderFiles _ st run hrun⟩
  rw [hids, rawUnits, askedAnswers_orderFiles]
  decide +kernel

end Collision

end StackMigrate
