import StackMigrate.Core.Python
import Mathlib.Tactic.Linarith

/-!
# The budget guard

Three ceilings, any one of which exhausts the budget: dollars, LLM calls and the
wall clock. Every method that looks at the clock takes the readings of
`time.time()` it makes as arguments, since two readings inside one call may differ.
-/

namespace StackMigrate

structure BudgetState where
  maxUsd : ℚ
  spentUsd : ℚ := 0
  maxLlmCalls : ℤ := 500
  llmCallsMade : ℤ := 0
  maxWallClockSeconds : ℤ := 3600
  startedAt : ℚ
  maxCallCostUsd : ℚ := 0
  defaultCallReserveUsd : ℚ := 1 / 4
  deriving DecidableEq, Repr

namespace BudgetState

variable (b : BudgetState)

def remainingUsd : ℚ := max 0 (b.maxUsd - b.spentUsd)

def elapsedSeconds (now : ℚ) : ℚ := now - b.startedAt

def wallClockExceeded (now : ℚ) : Bool := b.elapsedSeconds now ≥ b.maxWallClockSeconds

/-- `now` decides whether the wall clock has run out; `later` is the second reading,
which only the message shows. -/
def exhaustedReason (now later : ℚ) : Option String :=
  if b.spentUsd ≥ b.maxUsd then
    some ("cost ceiling reached ($" ++ formatFixed 2 b.spentUsd ++ " of $" ++
      formatFixed 2 b.maxUsd ++ ")")
  else if b.llmCallsMade ≥ b.maxLlmCalls then
    some ("LLM call cap reached (" ++ toString b.llmCallsMade ++ " of " ++
      toString b.maxLlmCalls ++ ")")
  else if b.wallClockExceeded now then
    some ("wall-clock limit reached (" ++ formatFixed 0 (b.elapsedSeconds later) ++ "s of " ++
      toString b.maxWallClockSeconds ++ "s)")
  else none

def isExhausted (now : ℚ) : Bool := (b.exhaustedReason now now).isSome

def recordCall (costUsd : ℚ) (calls : ℤ := 1) (trackMax : Bool := true) : BudgetState :=
  { b with
    spentUsd := b.spentUsd + costUsd
    llmCallsMade := b.llmCallsMade + calls
    maxCallCostUsd :=
      if trackMax ∧ calls > 0 then max b.maxCallCostUsd (costUsd / calls) else b.maxCallCostUsd }

/-- `max_call_cost_usd or default_call_reserve_usd`. -/
def callReserve : ℚ := if b.maxCallCostUsd ≠ 0 then b.maxCallCostUsd else b.defaultCallReserveUsd

/-- The floor division of the dollars left by the reserve, with its epsilon. -/
def callsWithinReserve : ℤ := ⌊(b.remainingUsd + 1 / 10 ^ 9) / b.callReserve⌋

/-- How many parallel calls may be launched. The exhausted check makes a clock
reading of its own. -/
def affordableCalls (wanted : ℤ) (now : ℚ) : Except PyException ℤ :=
  if wanted ≤ 0 ∨ b.isExhausted now then .ok 0
  else if b.callReserve = 0 then .error .zeroDivisionError
  else .ok (max 1 (min wanted b.callsWithinReserve))

/-! ### Exhaustion -/

theorem isExhausted_iff (now : ℚ) :
    b.isExhausted now = true ↔
      b.maxUsd ≤ b.spentUsd ∨ b.maxLlmCalls ≤ b.llmCallsMade ∨
        (b.maxWallClockSeconds : ℚ) ≤ now - b.startedAt := by
  unfold isExhausted exhaustedReason
  split_ifs with h₁ h₂ h₃
  · simp [h₁]
  · simp [h₂]
  · have h₃' : (b.maxWallClockSeconds : ℚ) ≤ now - b.startedAt := by
      simpa [wallClockExceeded, elapsedSeconds] using h₃
    simp [h₃']
  · have h₃' : ¬ (b.maxWallClockSeconds : ℚ) ≤ now - b.startedAt := by
      simpa [wallClockExceeded, elapsedSeconds] using h₃
    simp only [ge_iff_le] at h₁ h₂
    simp [h₁, h₂, h₃']

theorem not_isExhausted_iff (now : ℚ) :
    b.isExhausted now = false ↔
      b.spentUsd < b.maxUsd ∧ b.llmCallsMade < b.maxLlmCalls ∧
        now - b.startedAt < b.maxWallClockSeconds := by
  rw [← Bool.not_eq_true, b.isExhausted_iff]
  simp only [not_or, not_le]

/-- Whether a reason exists does not depend on the reading the message shows. -/
theorem exhaustedReason_isSome (now later : ℚ) :
    (b.exhaustedReason now later).isSome = b.isExhausted now := by
  unfold isExhausted exhaustedReason
  split_ifs <;> rfl

/-- Time only ever makes things worse. -/
theorem isExhausted_mono {now later : ℚ} (hle : now ≤ later) (h : b.isExhausted now = true) :
    b.isExhausted later = true := by
  rw [isExhausted_iff] at h ⊢
  rcases h with h | h | h
  · exact Or.inl h
  · exact Or.inr (Or.inl h)
  · exact Or.inr (Or.inr (by linarith))

theorem remainingUsd_of_left (hleft : b.spentUsd < b.maxUsd) :
    b.remainingUsd = b.maxUsd - b.spentUsd := by
  rw [remainingUsd, max_eq_right (by linarith)]

/-! ### Recording -/

@[simp] theorem recordCall_spentUsd (cost : ℚ) (calls : ℤ) (track : Bool) :
    (b.recordCall cost calls track).spentUsd = b.spentUsd + cost := rfl

@[simp] theorem recordCall_llmCallsMade (cost : ℚ) (calls : ℤ) (track : Bool) :
    (b.recordCall cost calls track).llmCallsMade = b.llmCallsMade + calls := rfl

@[simp] theorem recordCall_maxUsd (cost : ℚ) (calls : ℤ) (track : Bool) :
    (b.recordCall cost calls track).maxUsd = b.maxUsd := rfl

@[simp] theorem recordCall_maxLlmCalls (cost : ℚ) (calls : ℤ) (track : Bool) :
    (b.recordCall cost calls track).maxLlmCalls = b.maxLlmCalls := rfl

@[simp] theorem recordCall_startedAt (cost : ℚ) (calls : ℤ) (track : Bool) :
    (b.recordCall cost calls track).startedAt = b.startedAt := rfl

@[simp] theorem recordCall_maxWallClockSeconds (cost : ℚ) (calls : ℤ) (track : Bool) :
    (b.recordCall cost calls track).maxWallClockSeconds = b.maxWallClockSeconds := rfl

@[simp] theorem recordCall_defaultCallReserveUsd (cost : ℚ) (calls : ℤ) (track : Bool) :
    (b.recordCall cost calls track).defaultCallReserveUsd = b.defaultCallReserveUsd := rfl

@[simp] theorem recordCall_maxCallCostUsd (cost : ℚ) :
    (b.recordCall cost).maxCallCostUsd = max b.maxCallCostUsd cost := by
  simp [recordCall]

@[simp] theorem recordCall_untracked_maxCallCostUsd (cost : ℚ) (calls : ℤ) :
    (b.recordCall cost calls false).maxCallCostUsd = b.maxCallCostUsd := by
  simp [recordCall]

/-- Record a list of single calls, first to last. -/
def recordAll (costs : List ℚ) : BudgetState := costs.foldl (fun b cost => b.recordCall cost) b

@[simp] theorem recordAll_spentUsd (costs : List ℚ) :
    (b.recordAll costs).spentUsd = b.spentUsd + costs.sum := by
  induction costs generalizing b with
  | nil => simp [recordAll]
  | cons c cs ih =>
    have h := ih (b.recordCall c)
    simp only [recordAll, List.foldl_cons, recordCall_spentUsd, List.sum_cons] at h ⊢
    rw [h]
    ring

@[simp] theorem recordAll_llmCallsMade (costs : List ℚ) :
    (b.recordAll costs).llmCallsMade = b.llmCallsMade + costs.length := by
  induction costs generalizing b with
  | nil => simp [recordAll]
  | cons c cs ih =>
    have h := ih (b.recordCall c)
    simp only [recordAll, List.foldl_cons, recordCall_llmCallsMade, List.length_cons] at h ⊢
    rw [h]
    push_cast
    ring

/-- What recording never touches. -/
theorem recordAll_limits (costs : List ℚ) :
    (b.recordAll costs).maxUsd = b.maxUsd ∧
      (b.recordAll costs).maxLlmCalls = b.maxLlmCalls ∧
      (b.recordAll costs).maxWallClockSeconds = b.maxWallClockSeconds ∧
      (b.recordAll costs).startedAt = b.startedAt ∧
      (b.recordAll costs).defaultCallReserveUsd = b.defaultCallReserveUsd := by
  induction costs generalizing b with
  | nil => simp [recordAll]
  | cons c cs ih => exact ih (b.recordCall c)

/-- Recording calls never lowers the largest cost observed. -/
theorem maxCallCostUsd_le_recordAll (costs : List ℚ) :
    b.maxCallCostUsd ≤ (b.recordAll costs).maxCallCostUsd := by
  induction costs generalizing b with
  | nil => exact le_rfl
  | cons cost rest ih =>
    calc b.maxCallCostUsd
        ≤ (b.recordCall cost).maxCallCostUsd := by simp
      _ ≤ ((b.recordCall cost).recordAll rest).maxCallCostUsd := ih (b.recordCall cost)

/-! ### Affordable calls -/

theorem affordableCalls_of_exhausted {wanted : ℤ} {now : ℚ} (h : b.isExhausted now = true) :
    b.affordableCalls wanted now = .ok 0 := by
  simp [affordableCalls, h]

theorem affordableCalls_of_reserve {wanted : ℤ} {now : ℚ} (hw : 0 < wanted)
    (h : b.isExhausted now = false) (hr : b.callReserve ≠ 0) :
    b.affordableCalls wanted now = .ok (max 1 (min wanted b.callsWithinReserve)) := by
  simp [affordableCalls, h, hr, not_le.mpr hw]

/-! ### The reserve -/

/-- The reserve cannot become zero, whatever calls are recorded. -/
def ReserveSet : Prop := 0 < b.maxCallCostUsd ∨ b.defaultCallReserveUsd ≠ 0

variable {b}

/-- Costs that were observed as non-negative leave a positive reserve. -/
theorem callReserve_pos (hobserved : 0 ≤ b.maxCallCostUsd)
    (hguess : 0 < b.defaultCallReserveUsd) : 0 < b.callReserve := by
  unfold callReserve
  split_ifs with hmax
  · exact lt_of_le_of_ne hobserved (Ne.symm hmax)
  · exact hguess

theorem ReserveSet.callReserve_ne_zero (h : b.ReserveSet) : b.callReserve ≠ 0 := by
  unfold callReserve
  split_ifs with hmax
  · exact hmax
  · rw [not_not] at hmax
    exact h.resolve_left (by simp [hmax])

theorem ReserveSet.recordCall (h : b.ReserveSet) (cost : ℚ) (calls : ℤ) (track : Bool) :
    (b.recordCall cost calls track).ReserveSet := by
  rcases h with hmax | hdefault
  · left
    simp only [BudgetState.recordCall]
    split_ifs
    · exact lt_max_of_lt_left hmax
    · exact hmax
  · exact Or.inr hdefault

theorem ReserveSet.recordAll (h : b.ReserveSet) (costs : List ℚ) :
    (b.recordAll costs).ReserveSet := by
  induction costs generalizing b with
  | nil => exact h
  | cons cost rest ih => exact ih (h.recordCall cost 1 true)

end BudgetState
end StackMigrate
