import StackMigrate.Graph.Ledger
import StackMigrate.Nodes.Extraction
import StackMigrate.Properties.Publication
import Mathlib.Algebra.Order.BigOperators.Group.List

/-!
# The ceiling on the cost

Extraction stops once its running total has reached the dollars left, a wave is cut to what
the reserve allows, and the analyzer is asked once. Each of the three overshoots the ceiling
by at most one call, and none of them starts above it.
-/

namespace StackMigrate

/-! ### Costs on record -/

/-- What the calls of one superstep cost. A branch that raises reports nothing. -/
def Event.costs : Event → List ℚ
  | .comprehension calls _ => calls.filterMap ExtractionCall.costUsd
  | .wave branches => branches.flatMap BranchRecord.costs
  | .errorAnalysis (.returned costUsd) => [costUsd]
  | _ => []

/-- No call of the step costs more than `C`, and no editor call more than the reserve its wave
was dispatched with. -/
def CostsWithin (C : ℚ) (c : Snapshot) (_ : Input) (c' : Snapshot) : Prop :=
  match c'.trace with
  | .wave branches :: _ =>
    ∀ cost ∈ branches.flatMap BranchRecord.costs, cost ≤ C ∧ cost ≤ c.state.budget.callReserve
  | event :: _ => ∀ cost ∈ event.costs, cost ≤ C
  | [] => True

instance (C : ℚ) (c : Snapshot) (i : Input) (c' : Snapshot) : Decidable (CostsWithin C c i c') := by
  unfold CostsWithin
  split <;> infer_instance

/-! ### Extraction -/

/-- The running total passes the dollars left by at most the call that reached them. -/
theorem totalCost_extractFiles {files : List DiscoveredFile} {remainingBudgetUsd D : ℚ}
    {answers : List ExtractionAnswer} {st : ExtractionState}
    (hst : st.totalCost ≤ remainingBudgetUsd + D)
    (hcalls : ∀ cost ∈ (extractFiles files remainingBudgetUsd answers st).1.calls.filterMap
      ExtractionCall.costUsd, cost ≤ D) :
    (extractFiles files remainingBudgetUsd answers st).1.totalCost ≤ remainingBudgetUsd + D := by
  revert hcalls
  refine extractFiles_rule
    (I := fun st => (∀ cost ∈ st.calls.filterMap ExtractionCall.costUsd, cost ≤ D) →
      st.totalCost ≤ remainingBudgetUsd + D)
    (P := fun r => (∀ cost ∈ r.1.calls.filterMap ExtractionCall.costUsd, cost ≤ D) →
      r.1.totalCost ≤ remainingBudgetUsd + D)
    ?_ ?_ ?_ ?_ ?_ answers fun _ => hst
  · intro st hI
    exact hI
  · intro st file _ hI
    exact hI
  · intro st file costUsd exc hI hcalls
    refine hI fun cost hcost => hcalls cost ?_
    rw [List.filterMap_append]
    exact List.mem_append_left _ hcost
  · intro st file exc hI hcalls
    refine hI fun cost hcost => hcalls cost ?_
    rw [ExtractionState.recordFailure, List.filterMap_append]
    exact List.mem_append_left _ hcost
  · intro st file result costUsd hleft _ hcalls
    have hcost : costUsd ≤ D := hcalls costUsd (by simp [ExtractionState.recordResult])
    simp only [ExtractionState.recordResult]
    linarith

theorem totalCost_runComprehension [UnicodeData] {repoRoot scopeDescription sourceStack : String}
    {remainingBudgetUsd D : ℚ} {answers : List ExtractionAnswer} {st : ExtractionState}
    {run : ComprehensionRun} (hstart : 0 ≤ remainingBudgetUsd + D)
    (hrun : runComprehension repoRoot scopeDescription sourceStack remainingBudgetUsd answers =
      (st, .ok run))
    (hcalls : ∀ cost ∈ st.calls.filterMap ExtractionCall.costUsd, cost ≤ D) :
    run.totalCost ≤ remainingBudgetUsd + D := by
  obtain ⟨notes, hloop, -, -, htotal⟩ := runComprehension_ok hrun
  have hfinal : (extractFiles _ _ _ _).1 = st := congrArg Prod.fst hloop
  rw [htotal]
  rw [← hfinal] at hcalls ⊢
  exact totalCost_extractFiles hstart hcalls

/-! ### One wave -/

/-- A wave within the reserve costs at most the dollars left with their epsilon; a wave of one
call costs what that call does. -/
theorem sum_costs_le {b : BudgetState} {costs : List ℚ} {ready : ℤ} {C : ℚ}
    (hreserve : 0 < b.callReserve)
    (hlength : (costs.length : ℤ) ≤ max 1 (min ready b.callsWithinReserve))
    (hcosts : ∀ cost ∈ costs, cost ≤ C ∧ cost ≤ b.callReserve) :
    costs.sum ≤ b.remainingUsd + max C (1 / 10 ^ 9) := by
  have hremaining : 0 ≤ b.remainingUsd := le_max_left _ _
  have hepsilon : (1 : ℚ) / 10 ^ 9 ≤ max C (1 / 10 ^ 9) := le_max_right _ _
  have hC : C ≤ max C (1 / 10 ^ 9) := le_max_left _ _
  match costs with
  | [] =>
    simp only [List.sum_nil]
    linarith
  | [cost] =>
    have hcost := (hcosts cost (by simp)).1
    simp only [List.sum_singleton]
    linarith
  | cost :: cost' :: rest =>
    have hfloor : ((cost :: cost' :: rest).length : ℤ) ≤ b.callsWithinReserve := by
      simp only [List.length_cons, Nat.cast_add, Nat.cast_one] at hlength ⊢
      omega
    have hcalls : ((cost :: cost' :: rest).length : ℚ) * b.callReserve ≤
        b.remainingUsd + 1 / 10 ^ 9 := by
      rw [← le_div_iff₀ hreserve]
      calc ((cost :: cost' :: rest).length : ℚ)
          ≤ (b.callsWithinReserve : ℚ) := by exact_mod_cast hfloor
        _ ≤ (b.remainingUsd + 1 / 10 ^ 9) / b.callReserve := Int.floor_le _
    have hsum := List.sum_le_card_nsmul (cost :: cost' :: rest) b.callReserve
      fun x hx => (hcosts x hx).2
    rw [nsmul_eq_mul] at hsum
    linarith

/-! ### The books -/

/-- What may be spent: the ceiling, and one call or the epsilon of the floor division. -/
def costBound (limits : BudgetLimits) (C : ℚ) : ℚ := max 0 limits.maxUsd + max C (1 / 10 ^ 9)

/-- The dollars on the books, with those of a wave that has just come back. -/
structure CostBooks (limits : BudgetLimits) (C : ℚ) (c : Snapshot) : Prop where
  placed : Placed c.state c.next
  settled : Settled c
  ceiling : c.state.budget.maxUsd = limits.maxUsd
  observed : 0 ≤ c.state.budget.maxCallCostUsd
  guess : 0 < c.state.budget.defaultCallReserveUsd
  spent : c.state.budget.spentUsd ≤ costBound limits C
  pending : c.state.budget.spentUsd + c.state.unreconciled.sum ≤ costBound limits C

section Steps

variable [UnicodeData] {c c' : Snapshot} {i : Input} {limits : BudgetLimits} {C : ℚ}

omit [UnicodeData] in
/-- Whatever starts with dollars left and overshoots them by one call keeps the bound. -/
theorem CostBooks.add_le (hc : CostBooks limits C c)
    (hleft : c.state.budget.spentUsd < c.state.budget.maxUsd) {cost : ℚ}
    (hcost : cost ≤ c.state.budget.remainingUsd + max C (1 / 10 ^ 9)) :
    c.state.budget.spentUsd + cost ≤ costBound limits C := by
  have hceiling : limits.maxUsd ≤ max 0 limits.maxUsd := le_max_right _ _
  rw [BudgetState.remainingUsd_of_left _ hleft, hc.ceiling] at hcost
  unfold costBound
  linarith

theorem CostBooks.superstep (hc : CostBooks limits C c) (hok : CostsWithin C c i c')
    (h : Superstep c i c') : CostBooks limits C c' := by
  have hlimits := limits_superstep hc.placed h
  have hraised : ∀ exc, c.next ≠ .raised exc := fun exc => next_ne_raised h
  have hC : C ≤ max C (1 / 10 ^ 9) := le_max_left _ _
  have hepsilon : (0 : ℚ) < max C (1 / 10 ^ 9) := lt_max_of_lt_right (by norm_num)
  have hremaining : 0 ≤ c.state.budget.remainingUsd := le_max_left _ _
  have hkept : 0 ≤ c'.state.budget.maxCallCostUsd →
      c'.state.budget.spentUsd ≤ costBound limits C →
      c'.state.budget.spentUsd + c'.state.unreconciled.sum ≤ costBound limits C →
      CostBooks limits C c' := fun hobserved hspent hpending =>
    ⟨placed_superstep hc.placed h, settled_superstep hc.placed hc.settled h,
      hlimits.1.trans hc.ceiling, hobserved, hlimits.2.2 ▸ hc.guess, hspent, hpending⟩
  cases charge_of_superstep hc.placed h with
  | none hbudget hdeltas =>
    refine hkept ?_ ?_ ?_
    · exact hbudget ▸ hc.observed
    · exact hbudget ▸ hc.spent
    · rw [hbudget, hdeltas.unreconciled_eq]
      exact hc.pending
  | extraction st run hleft hrun hbudget hdeltas hnode _ htrace =>
    have hnone : c'.state.unreconciled = [] := by
      rw [hdeltas.unreconciled_eq]
      exact hc.settled.unreconciled_eq_nil (by simp [hnode]) hraised
    have hcalls : ∀ cost ∈ st.calls.filterMap ExtractionCall.costUsd,
        cost ≤ max C (1 / 10 ^ 9) := by
      intro cost hcost
      simp only [CostsWithin, htrace] at hok
      exact (hok cost hcost).trans hC
    have htotal := totalCost_runComprehension (by linarith) hrun hcalls
    have hspent : c'.state.budget.spentUsd ≤ costBound limits C := by
      rw [hbudget, BudgetState.recordCall_spentUsd]
      exact hc.add_le ((BudgetState.not_isExhausted_iff _ _).mp hleft).1 htotal
    refine hkept ?_ hspent ?_
    · rw [hbudget, BudgetState.recordCall_untracked_maxCallCostUsd]
      exact hc.observed
    · simpa [hnone] using hspent
  | analysis _ costUsd _ _ hleft _ hbudget hdeltas hnode _ htrace =>
    have hnone : c'.state.unreconciled = [] := by
      rw [hdeltas.unreconciled_eq]
      exact hc.settled.unreconciled_eq_nil (by simp [hnode]) hraised
    have hcost : costUsd ≤ C := by
      simp only [CostsWithin, htrace] at hok
      exact hok costUsd (by simp [Event.costs])
    have hspent : c'.state.budget.spentUsd ≤ costBound limits C := by
      rw [hbudget, BudgetState.recordCall_spentUsd]
      exact hc.add_le ((BudgetState.not_isExhausted_iff _ _).mp hleft).1 (by linarith)
    refine hkept ?_ hspent ?_
    · rw [hbudget, BudgetState.recordCall_maxCallCostUsd]
      exact hc.observed.trans (le_max_left _ _)
    · simpa [hnone] using hspent
  | @wave sends _ _ hsends harrivals hbudget hdeltas hconsumed _ htrace =>
    obtain ⟨hwave, hready, -, now, hleft⟩ := hc.placed.wave _ hsends
    refine hkept (hbudget ▸ hc.observed) (hbudget ▸ hc.spent) ?_
    rw [unreconciled_of_wave hc.settled hsends hdeltas hconsumed, hbudget]
    refine hc.add_le ((BudgetState.not_isExhausted_iff _ _).mp hleft).1 ?_
    have hcount := length_costs_le harrivals
    have hwidth : sends.length = (nextWave c.state).length := by
      rw [hwave, sendsFor, List.length_map]
    have hsize := length_nextWave hready
    rw [← hwidth] at hsize
    refine sum_costs_le (BudgetState.callReserve_pos hc.observed hc.guess)
      (hsize ▸ Int.ofNat_le.mpr hcount) ?_
    simpa only [CostsWithin, htrace] using hok
  | reconciliation _ hbudget hdeltas hconsumed =>
    have hspent : c'.state.budget.spentUsd ≤ costBound limits C := by
      rw [hbudget, BudgetState.recordAll_spentUsd]
      exact hc.pending
    refine hkept ?_ hspent ?_
    · rw [hbudget]
      exact hc.observed.trans (BudgetState.maxCallCostUsd_le_recordAll _ _)
    · simpa [unreconciled_eq_nil hconsumed] using hspent

end Steps

section Runs

variable [UnicodeData] {config : MigrationRunConfig} {limits : BudgetLimits} {maxRetryRounds : ℤ}
  {startedAt : ℚ} {inputs : List Input} {c : Snapshot} {C : ℚ}

omit [UnicodeData] in
theorem costBooks_initial :
    CostBooks limits C (initial config limits maxRetryRounds startedAt) := by
  have hbound : 0 ≤ costBound limits C := by
    have hepsilon : (0 : ℚ) ≤ max C (1 / 10 ^ 9) := le_max_of_le_right (by norm_num)
    have hmax : 0 ≤ max 0 limits.maxUsd := le_max_left _ _
    unfold costBound
    linarith
  refine ⟨placed_initial _ _ _ _, fun _ _ => rfl, rfl, le_rfl, ?_, hbound, ?_⟩
  · simp [initial]
  · simpa [initial, GraphState.unreconciled] using hbound

/-- Where the calls cost what the run assumes, the ceiling is overshot by at most one call, and
the wave cap, before or after the calls of a step are recorded, never divides by zero. -/
theorem cost_overshoots_one_call
    (hrun : graph.RunWhere (CostsWithin C) (initial config limits maxRetryRounds startedAt)
      inputs c) :
    c.state.budget.spentUsd ≤ max 0 limits.maxUsd + max C (1 / 10 ^ 9) ∧
      ∀ (costs : List ℚ) (wanted : ℤ) (now : ℚ),
        ∃ n, (c.state.budget.recordAll costs).affordableCalls wanted now = .ok n := by
  have hc := hrun.invariant (I := CostBooks limits C) costBooks_initial
    fun c i c' hc hstep hok => hc.superstep hok (superstep_of_step hstep)
  refine ⟨hc.spent, ?_⟩
  intro costs wanted now
  have hset : (c.state.budget.recordAll costs).ReserveSet :=
    BudgetState.ReserveSet.recordAll (Or.inr hc.guess.ne') costs
  unfold BudgetState.affordableCalls
  rw [if_neg hset.callReserve_ne_zero]
  split_ifs
  · exact ⟨_, rfl⟩
  · exact ⟨_, rfl⟩

end Runs

section Approved

attribute [local instance] asciiTables

theorem cost_overshoots_one_call_approvedRun :
    ∃ c : Snapshot, endsPublishing c = true ∧
      c.state.budget.spentUsd ≤ max 0 5 + max (1 / 100) (1 / 10 ^ 9) := by
  have hexec : (graph.exec (CostsWithin (1 / 100)) (initial demoConfig demoLimits 5 0)
      approvedRun).any endsPublishing = true := by decide +kernel
  obtain ⟨c, hrun, hends⟩ := DrivenSystem.exists_runWhere_of_exec hexec
  obtain ⟨hspent, -⟩ := cost_overshoots_one_call hrun
  exact ⟨c, hends, hspent⟩

end Approved

end StackMigrate
