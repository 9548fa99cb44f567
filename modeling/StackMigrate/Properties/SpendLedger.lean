import StackMigrate.Graph.Ledger
import StackMigrate.Graph.Records
import StackMigrate.Graph.Loop
import StackMigrate.Graph.Replay
import StackMigrate.Nodes.Extraction
import StackMigrate.Properties.Publication
import Mathlib.Order.Bounds.Basic

/-!
# The ledger of the spending

Three kinds of calls reach the budget on two ways. Whatever their order, the totals are
those of the calls on record, and each delta is charged once.
-/

namespace StackMigrate

/-! ### Costs on record -/

namespace Event

def extractionCosts : Event → List ℚ
  | comprehension calls _ => calls.filterMap ExtractionCall.costUsd
  | _ => []

def editorCosts : Event → List ℚ
  | wave branches => branches.flatMap BranchRecord.costs
  | _ => []

def analyzerCosts : Event → List ℚ
  | errorAnalysis (.returned costUsd) => [costUsd]
  | _ => []

/-- No call of the event has cost anything. -/
def IsFree (e : Event) : Prop :=
  e.extractionCosts = [] ∧ e.editorCosts = [] ∧ e.analyzerCosts = []

end Event

/-- The events that led to the state. A superstep that raises leaves the state as it was, so
its event is not among them. -/
def Snapshot.committed (c : Snapshot) : List Event :=
  if c.next.isRaised then c.trace.tail else c.trace

/-- The inputs that led to the state. -/
def Snapshot.committedInputs (c : Snapshot) (inputs : List Input) : List Input :=
  if c.next.isRaised then inputs.dropLast else inputs

/-- The comprehension node has got past its exhausted check. -/
def pastExhaustedCheck (b : BudgetState) : List Input → Bool
  | .comprehension answer :: _ => !b.isExhausted answer.now
  | _ => false

theorem BudgetState.isGreatest_recordAll {b : BudgetState} {S : Set ℚ} {costs : List ℚ}
    (h : IsGreatest S b.maxCallCostUsd) :
    IsGreatest (S ∪ {x | x ∈ costs}) (b.recordAll costs).maxCallCostUsd := by
  induction costs generalizing b S with
  | nil => simpa [recordAll] using h
  | cons cost rest ih =>
    have hone : IsGreatest (insert cost S) (b.recordCall cost).maxCallCostUsd := by
      rw [recordCall_maxCallCostUsd, max_comm]
      exact h.insert cost
    have hall := ih hone
    have hset : S ∪ {x | x ∈ cost :: rest} = insert cost S ∪ {x | x ∈ rest} := by
      ext x
      simp only [Set.mem_union, Set.mem_ofPred_eq, Set.mem_insert_iff, List.mem_cons]
      tauto
    rw [hset]
    exact hall

/-! ### The balance -/

/-- The budget once the deltas that are left have been charged. -/
def GraphState.settledBudget (s : GraphState) : BudgetState := s.budget.recordAll s.unreconciled

/-- The totals of the budget are those of the calls on record. -/
structure Balanced (s : GraphState) (trace : List Event) : Prop where
  deltas : s.budgetDeltas = trace.reverse.flatMap Event.editorCosts
  spent : s.settledBudget.spentUsd = (trace.flatMap Event.extractionCosts).sum +
    s.budgetDeltas.sum + (trace.flatMap Event.analyzerCosts).sum
  calls : s.settledBudget.llmCallsMade = (if s.comprehension.isSome then 1 else 0) +
    s.budgetDeltas.length + (trace.flatMap Event.analyzerCosts).length
  observed : IsGreatest
    {x | x = 0 ∨ x ∈ s.budgetDeltas ∨ x ∈ trace.flatMap Event.analyzerCosts}
    s.settledBudget.maxCallCostUsd

namespace Balanced

variable {s s' : GraphState} {trace : List Event} {e : Event}

/-- An event without costs that leaves budget and deltas alone. -/
theorem quiet (h : Balanced s trace) (he : e.IsFree) (hbudget : s'.budget = s.budget)
    (hdeltas : SameDeltas s s') (hcomp : s'.comprehension.isSome = s.comprehension.isSome) :
    Balanced s' (e :: trace) := by
  obtain ⟨hextraction, heditor, hanalyzer⟩ := he
  have hsettled : s'.settledBudget = s.settledBudget := by
    rw [GraphState.settledBudget, hbudget, hdeltas.unreconciled_eq, GraphState.settledBudget]
  refine ⟨?_, ?_, ?_, ?_⟩
  · simp [hdeltas.1, h.deltas, heditor]
  · simpa [hsettled, hdeltas.1, hextraction, hanalyzer] using h.spent
  · simpa [hsettled, hdeltas.1, hcomp, hanalyzer] using h.calls
  · simpa [hsettled, hdeltas.1, hanalyzer] using h.observed

theorem settledBudget_eq (h : s.unreconciled = []) : s.settledBudget = s.budget := by
  rw [GraphState.settledBudget, h]
  rfl

/-- The extraction is recorded as one call that costs what all its calls cost. -/
theorem extraction (h : Balanced s trace) {calls : List ExtractionCall} {stoppedEarly : Bool}
    {total : ℚ} (hcharged : s.unreconciled = [])
    (htotal : total = (calls.filterMap ExtractionCall.costUsd).sum)
    (hbudget : s'.budget = s.budget.recordCall total 1 false) (hdeltas : SameDeltas s s')
    (hfresh : s.comprehension = none) (hcomp : s'.comprehension.isSome = true) :
    Balanced s' (.comprehension calls stoppedEarly :: trace) := by
  have hsettled := settledBudget_eq hcharged
  have hsettled' : s'.settledBudget = s.budget.recordCall total 1 false := by
    rw [settledBudget_eq (hdeltas.unreconciled_eq.trans hcharged), hbudget]
  have hspent := h.spent
  have hcalls := h.calls
  rw [hsettled] at hspent hcalls
  refine ⟨?_, ?_, ?_, ?_⟩
  · simp [hdeltas.1, h.deltas, Event.editorCosts]
  · rw [hsettled', BudgetState.recordCall_spentUsd, hspent, htotal, hdeltas.1]
    simp only [List.flatMap_cons, Event.extractionCosts, Event.analyzerCosts, List.sum_append,
      List.nil_append]
    ring
  · rw [hsettled', BudgetState.recordCall_llmCallsMade, hcalls, hdeltas.1]
    simp only [hfresh, hcomp, List.flatMap_cons, Event.analyzerCosts, List.nil_append]
    simp
    ring
  · rw [hsettled', BudgetState.recordCall_untracked_maxCallCostUsd, ← hsettled, hdeltas.1]
    simpa [Event.analyzerCosts] using h.observed

/-- A wave appends what its calls have cost. -/
theorem wave (h : Balanced s trace) {records : List BranchRecord} (hcharged : s.unreconciled = [])
    (hbudget : s'.budget = s.budget)
    (hdeltas : s'.budgetDeltas = s.budgetDeltas ++ records.flatMap BranchRecord.costs)
    (hleft : s'.unreconciled = records.flatMap BranchRecord.costs)
    (hcomp : s'.comprehension = s.comprehension) : Balanced s' (.wave records :: trace) := by
  have hsettled := settledBudget_eq hcharged
  have hsettled' : s'.settledBudget = s.budget.recordAll (records.flatMap BranchRecord.costs) := by
    rw [GraphState.settledBudget, hbudget, hleft]
  have hspent := h.spent
  have hcalls := h.calls
  have hobserved := h.observed
  rw [hsettled] at hspent hcalls hobserved
  refine ⟨?_, ?_, ?_, ?_⟩
  · simp [hdeltas, h.deltas, Event.editorCosts]
  · rw [hsettled', BudgetState.recordAll_spentUsd, hspent, hdeltas]
    simp only [List.flatMap_cons, Event.extractionCosts, Event.analyzerCosts, List.sum_append,
      List.nil_append]
    ring
  · rw [hsettled', BudgetState.recordAll_llmCallsMade, hcalls, hdeltas, hcomp]
    simp only [List.flatMap_cons, Event.analyzerCosts, List.length_append, List.nil_append]
    push_cast
    ring
  · have hset : {x | x = 0 ∨ x ∈ s'.budgetDeltas ∨
        x ∈ (Event.wave records :: trace).flatMap Event.analyzerCosts} =
        {x | x = 0 ∨ x ∈ s.budgetDeltas ∨ x ∈ trace.flatMap Event.analyzerCosts} ∪
          {x | x ∈ records.flatMap BranchRecord.costs} := by
      ext x
      simp only [hdeltas, List.flatMap_cons, Event.analyzerCosts, List.nil_append,
        List.mem_append, Set.mem_ofPred_eq, Set.mem_union]
      tauto
    rw [hsettled', hset]
    exact BudgetState.isGreatest_recordAll hobserved

/-- The reconciliation charges what is left and adds nothing. -/
theorem reconciled (h : Balanced s trace) : Balanced s.reconciled (.budgetReconcile :: trace) := by
  have hdeltas : s.reconciled.budgetDeltas = s.budgetDeltas := List.append_nil _
  have hleft : s.reconciled.unreconciled = [] := by
    simp [GraphState.unreconciled, GraphState.reconciled]
  have hsettled : s.reconciled.settledBudget = s.settledBudget := settledBudget_eq hleft
  have hcomp : s.reconciled.comprehension = s.comprehension := rfl
  refine ⟨?_, ?_, ?_, ?_⟩
  · simp [hdeltas, h.deltas, Event.editorCosts]
  · simpa [hsettled, hdeltas, Event.extractionCosts, Event.analyzerCosts] using h.spent
  · simpa [hsettled, hdeltas, hcomp, Event.analyzerCosts] using h.calls
  · simpa [hsettled, hdeltas, Event.analyzerCosts] using h.observed

/-- The analyzer is recorded as it returns. -/
theorem analysis (h : Balanced s trace) {costUsd : ℚ} (hcharged : s.unreconciled = [])
    (hbudget : s'.budget = s.budget.recordCall costUsd) (hdeltas : SameDeltas s s')
    (hcomp : s'.comprehension = s.comprehension) :
    Balanced s' (.errorAnalysis (.returned costUsd) :: trace) := by
  have hsettled := settledBudget_eq hcharged
  have hsettled' : s'.settledBudget = s.budget.recordCall costUsd := by
    rw [settledBudget_eq (hdeltas.unreconciled_eq.trans hcharged), hbudget]
  have hspent := h.spent
  have hcalls := h.calls
  have hobserved := h.observed
  rw [hsettled] at hspent hcalls hobserved
  refine ⟨?_, ?_, ?_, ?_⟩
  · simp [hdeltas.1, h.deltas, Event.editorCosts]
  · rw [hsettled', BudgetState.recordCall_spentUsd, hspent, hdeltas.1]
    simp only [List.flatMap_cons, Event.extractionCosts, Event.analyzerCosts, List.sum_append,
      List.nil_append, List.sum_singleton]
    ring
  · rw [hsettled', BudgetState.recordCall_llmCallsMade, hcalls, hdeltas.1, hcomp]
    simp only [List.flatMap_cons, Event.analyzerCosts, List.length_append, List.length_singleton]
    push_cast
    ring
  · have hset : {x | x = 0 ∨ x ∈ s'.budgetDeltas ∨
        x ∈ (Event.errorAnalysis (.returned costUsd) :: trace).flatMap Event.analyzerCosts} =
        insert costUsd
          {x | x = 0 ∨ x ∈ s.budgetDeltas ∨ x ∈ trace.flatMap Event.analyzerCosts} := by
      ext x
      simp only [hdeltas.1, List.flatMap_cons, Event.analyzerCosts, List.singleton_append,
        List.mem_cons, Set.mem_ofPred_eq, Set.mem_insert_iff]
      tauto
    rw [hsettled', BudgetState.recordCall_maxCallCostUsd, max_comm, hset]
    exact hobserved.insert costUsd

end Balanced

/-! ### Runs -/

section Steps

variable [UnicodeData] {c c' : Snapshot} {i : Input}

theorem committed_of_superstep (h : Superstep c i c') : c.committed = c.trace := by
  rw [Snapshot.committed, isRaised_of_superstep h]
  rfl

/-- The balance survives a step that comes through. -/
theorem Balanced.superstep (hc : Balanced c.state c.trace) (hb : Books c)
    (hfresh : c.next = .node .comprehension → c.state.comprehension = none)
    (h : Superstep c i c') (hback : c'.next.isRaised = false) : Balanced c'.state c'.trace := by
  cases h with
  | raised => cases hback
  | comprehension hnext hpass =>
    have hcharged := hb.unreconciled_eq_nil (by simp [hnext])
    cases hpass with
    | exhausted =>
      exact hc.quiet ⟨rfl, rfl, rfl⟩ rfl (sameDeltas_apply rfl rfl) rfl
    | ran st run hleft hrun =>
      obtain ⟨notes, hloop, -, -, htotal⟩ := runComprehension_ok hrun
      have hsum := totalCost_eq_sum (by simp) hloop
      exact hc.extraction hcharged (htotal.trans hsum) rfl (sameDeltas_apply rfl rfl)
        (hfresh hnext) rfl
  | synthesis _ hpass =>
    cases hpass <;> exact hc.quiet ⟨rfl, rfl, rfl⟩ rfl (sameDeltas_apply rfl rfl) rfl
  | wave hnext harrivals hupdates =>
    obtain ⟨log, hlog⟩ := applyAll_wave hb.placed.nodup hupdates
    have hcharged := hb.charged (by simp [hnext])
    rw [Snapshot.moved_state, hlog]
    refine hc.wave (hb.unreconciled_eq_nil (by simp [hnext])) rfl rfl ?_ rfl
    rw [GraphState.unreconciled, GraphState.afterWave, hcharged, List.drop_left]
  | budgetReconcile => exact hc.reconciled
  | sandboxTest _ hpass =>
    cases hpass <;> exact hc.quiet ⟨rfl, rfl, rfl⟩ rfl (sameDeltas_apply rfl rfl) rfl
  | errorAnalysis hnext hpass =>
    cases hpass with
    | answered =>
      have hcharged := hb.unreconciled_eq_nil (by simp [hnext])
      exact hc.analysis hcharged rfl (sameDeltas_apply rfl rfl) rfl
    | _ => exact hc.quiet ⟨rfl, rfl, rfl⟩ rfl (sameDeltas_apply rfl rfl) rfl
  | aggregate _ hpass | resume _ hpass | prPublish _ hpass =>
    cases hpass <;> exact hc.quiet ⟨rfl, rfl, rfl⟩ rfl (sameDeltas_apply rfl rfl) rfl
  | requestApproval => exact hc.quiet ⟨rfl, rfl, rfl⟩ rfl (sameDeltas_apply rfl rfl) rfl
  | approvalGate => exact hc.quiet ⟨rfl, rfl, rfl⟩ rfl ⟨rfl, rfl⟩ rfl
  | budgetAbort _ hu =>
    cases hu
    exact hc.quiet ⟨rfl, rfl, rfl⟩ rfl (sameDeltas_apply rfl rfl) rfl

theorem balanced_superstep (hc : Balanced c.state c.committed) (hb : Books c)
    (hfresh : c.next = .node .comprehension → c.state.comprehension = none)
    (h : Superstep c i c') : Balanced c'.state c'.committed := by
  rw [committed_of_superstep h] at hc
  cases hraised : c'.next.isRaised with
  | true =>
    obtain ⟨e, htrace⟩ := trace_of_superstep h
    rw [Snapshot.committed, hraised, state_of_isRaised h hraised, htrace]
    exact hc
  | false =>
    rw [Snapshot.committed, hraised]
    exact hc.superstep hb hfresh h hraised

/-- The comprehension node leaves a result unless its exhausted check stopped it. -/
theorem comprehension_isSome_superstep (hnext : c.next = .node .comprehension)
    (hfresh : c.state.comprehension = none) (h : Superstep c i c')
    (hback : c'.next.isRaised = false) :
    c'.state.comprehension.isSome = pastExhaustedCheck c.state.budget [i] := by
  cases h with
  | raised => cases hback
  | comprehension _ hpass =>
    cases hpass with
    | exhausted _ hexhausted => simp [pastExhaustedCheck, hexhausted, hfresh]
    | ran _ _ hleft => simp [pastExhaustedCheck, hleft]
  | _ => simp_all

/-- Only the comprehension node writes a comprehension result. -/
theorem comprehension_superstep (hp : Placed c.state c.next) (hnext : c.next ≠ .node .comprehension)
    (h : Superstep c i c') : c'.state.comprehension = c.state.comprehension := by
  cases h with
  | comprehension hcomp => exact absurd hcomp hnext
  | wave _ _ hupdates =>
    obtain ⟨log, hlog⟩ := applyAll_wave hp.nodup hupdates
    rw [Snapshot.moved_state, hlog]
    rfl
  | synthesis _ hpass | sandboxTest _ hpass | errorAnalysis _ hpass | aggregate _ hpass
  | resume _ hpass | prPublish _ hpass => cases hpass <;> rfl
  | budgetAbort _ hu =>
    cases hu
    rfl
  | _ => rfl

end Steps

section Runs

variable [UnicodeData] {config : MigrationRunConfig} {limits : BudgetLimits} {maxRetryRounds : ℤ}
  {startedAt : ℚ} {inputs : List Input} {c : Snapshot}

omit [UnicodeData] in
theorem balanced_initial :
    Balanced (initial config limits maxRetryRounds startedAt).state [] := by
  have hsettled : (initial config limits maxRetryRounds startedAt).state.settledBudget =
      (initial config limits maxRetryRounds startedAt).state.budget := Balanced.settledBudget_eq rfl
  refine ⟨rfl, ?_, ?_, ?_⟩ <;> rw [hsettled] <;> simp [initial]

theorem balanced_of_run
    (hrun : graph.Run (initial config limits maxRetryRounds startedAt) inputs c) :
    Balanced c.state c.committed := by
  induction hrun with
  | refl => exact balanced_initial
  | @snoc inputs c i c' hrun hstep _ ih =>
    refine balanced_superstep ih (books_of_run hrun) ?_ (superstep_of_step hstep)
    intro hnext
    rcases start_or_comprehended hrun with ⟨-, rfl⟩ | ⟨-, hbehind⟩
    · rfl
    · exact absurd hnext hbehind

omit [UnicodeData] in
theorem pastExhaustedCheck_append {b : BudgetState} (h : inputs ≠ []) (later : List Input) :
    pastExhaustedCheck b (inputs ++ later) = pastExhaustedCheck b inputs := by
  cases inputs with
  | nil => exact absurd rfl h
  | cons i rest => cases i <;> rfl

/-- A comprehension result says that its node got past the exhausted check. -/
theorem comprehension_isSome_of_run
    (hrun : graph.Run (initial config limits maxRetryRounds startedAt) inputs c) :
    c.state.comprehension.isSome =
      pastExhaustedCheck (initial config limits maxRetryRounds startedAt).state.budget
        (c.committedInputs inputs) := by
  induction hrun with
  | refl => rfl
  | @snoc inputs c i c' hrun hstep _ ih =>
    have h := superstep_of_step hstep
    have hbefore : c.committedInputs inputs = inputs := by
      rw [Snapshot.committedInputs, isRaised_of_superstep h]
      rfl
    rw [hbefore] at ih
    cases hraised : c'.next.isRaised with
    | true =>
      rw [Snapshot.committedInputs, hraised, state_of_isRaised h hraised, ih]
      simp
    | false =>
      rw [Snapshot.committedInputs, hraised]
      rcases start_or_comprehended hrun with ⟨rfl, rfl⟩ | ⟨hinputs, hnext⟩
      · simpa using comprehension_isSome_superstep rfl rfl h hraised
      · rw [comprehension_superstep (books_of_run hrun).placed hnext h, ih,
          if_neg Bool.false_ne_true, pastExhaustedCheck_append hinputs]

/-- Outside a wave that waits for its reconciliation, every delta is charged, and the totals
of the budget are those of the calls on record, each counted once. -/
theorem spend_ledger_balances
    (hrun : graph.Run (initial config limits maxRetryRounds startedAt) inputs c)
    (hnext : c.next ≠ .node .budgetReconcile) :
    c.state.budgetDeltasConsumed = c.state.budgetDeltas.length ∧
      c.state.budgetDeltas = c.committed.reverse.flatMap Event.editorCosts ∧
      c.state.budget.spentUsd = (c.committed.flatMap Event.extractionCosts).sum +
        c.state.budgetDeltas.sum + (c.committed.flatMap Event.analyzerCosts).sum ∧
      c.state.budget.llmCallsMade =
        (if pastExhaustedCheck (initial config limits maxRetryRounds startedAt).state.budget
          (c.committedInputs inputs) then 1 else 0) +
        c.state.budgetDeltas.length + (c.committed.flatMap Event.analyzerCosts).length ∧
      IsGreatest {x | x = 0 ∨ x ∈ c.state.budgetDeltas ∨
        x ∈ c.committed.flatMap Event.analyzerCosts} c.state.budget.maxCallCostUsd := by
  have hbooks := books_of_run hrun
  have hbalanced := balanced_of_run hrun
  have hsettled := Balanced.settledBudget_eq (hbooks.unreconciled_eq_nil hnext)
  have hcalls := hbalanced.calls
  rw [comprehension_isSome_of_run hrun, hsettled] at hcalls
  exact ⟨hbooks.charged hnext, hbalanced.deltas, hsettled ▸ hbalanced.spent, hcalls,
    hsettled ▸ hbalanced.observed⟩

end Runs

section Rerun

attribute [local instance] asciiTables

/-- One service class whose first version fails the suite and is sent back. -/
def rerun : List Input :=
  planServices [serviceFile "OrderService" []] ++
    [.editors [(0, writesAt 0 "app/services/order_service.py")], .budgetReconcile (gateAt 0),
      suite .failed,
      .errorAnalysis ⟨0, .responded (some
        { analyses := [⟨"task::app_services_order_service_py", true⟩] }) (1 / 50)⟩ (gateAt 0)]

theorem spend_ledger_balances_rerun :
    ∃ c : Snapshot, c.committed.flatMap Event.analyzerCosts = [1 / 50] ∧
      c.state.budget.spentUsd = (c.committed.flatMap Event.extractionCosts).sum +
        c.state.budgetDeltas.sum + (c.committed.flatMap Event.analyzerCosts).sum := by
  have hreplay : (replay (initial demoConfig demoLimits 5 0) rerun).any
      (fun c => decide (c.next ≠ .node .budgetReconcile ∧
        c.committed.flatMap Event.analyzerCosts = [1 / 50])) = true := by decide +kernel
  obtain ⟨c, hrun, hc⟩ := exists_run_of_replay hreplay
  obtain ⟨hnext, hanalyzer⟩ := of_decide_eq_true hc
  obtain ⟨-, -, hspent, -⟩ := spend_ledger_balances hrun hnext
  exact ⟨c, hanalyzer, hspent⟩

end Rerun

end StackMigrate
