import StackMigrate.Core.Slugs
import StackMigrate.Nodes.Extraction
import Mathlib.Data.List.Perm.Basic

/-!
# Unit ids

`_assign_id` counts suffixes upwards until it finds an id that is not in use. There are
more candidates than ids in use, so it always finds one, and no two units share an id.
-/

namespace StackMigrate

/-! ### The search for a free id -/

theorem toString_nat_injective {m n : ℕ} (h : toString m = toString n) : m = n := by
  rw [Nat.toString_eq_repr, Nat.toString_eq_repr] at h
  have hdigits : Nat.toDigits 10 m = Nat.toDigits 10 n := by
    rw [← Nat.toList_repr, ← Nat.toList_repr, h]
  rw [← Nat.ofDigitChars_ten_toDigits (n := m), hdigits, Nat.ofDigitChars_ten_toDigits]

/-- The candidates that the search tries. -/
def candidate (base : String) (suffix : ℕ) : String := base ++ "_" ++ toString suffix

theorem candidate_injective (base : String) : Function.Injective (candidate base) := by
  intro m n h
  exact toString_nat_injective ((String.append_right_inj _).mp h)

/-- If the search ends with an id in use, it has met nothing else. -/
theorem candidates_mem {base : String} {usedIds : List String} {fuel suffix : ℕ}
    (h : freeCandidate base usedIds fuel suffix ∈ usedIds) :
    ∀ k ≤ fuel, candidate base (suffix + k) ∈ usedIds := by
  induction fuel generalizing suffix with
  | zero =>
    intro k hk
    obtain rfl : k = 0 := by omega
    exact h
  | succ fuel ih =>
    rw [freeCandidate] at h
    split_ifs at h with hused
    · intro k hk
      cases k with
      | zero => exact hused
      | succ k =>
        have hnext := ih h k (by omega)
        rwa [show suffix + 1 + k = suffix + (k + 1) by omega] at hnext
    · exact absurd h hused

theorem freeCandidate_notMem (base : String) (usedIds : List String) (suffix : ℕ) :
    freeCandidate base usedIds usedIds.length suffix ∉ usedIds := by
  intro h
  have hall := candidates_mem h
  let tried := (List.range (usedIds.length + 1)).map fun k => candidate base (suffix + k)
  have hnd : tried.Nodup := by
    refine (List.nodup_range (n := usedIds.length + 1)).map ?_
    intro j k hjk
    have hsame := candidate_injective base hjk
    omega
  have hsub : tried ⊆ usedIds := by
    intro id hid
    obtain ⟨k, hk, rfl⟩ := List.mem_map.mp hid
    exact hall k (by simpa [Nat.lt_succ_iff] using hk)
  have hlen := (List.subperm_of_subset hnd hsub).length_le
  simp only [tried, List.length_map, List.length_range] at hlen
  omega

theorem assignId_notMem (kindValue name : String) (usedIds : List String) :
    assignId kindValue name usedIds ∉ usedIds := by
  unfold assignId
  dsimp only
  split_ifs with hused
  · exact freeCandidate_notMem _ _ _
  · exact hused

/-- The `while` loop of `_assign_id` without a bound: from these values of its locals it ends
with `unitId`. -/
inductive SuffixSearch (base : String) (usedIds : List String) : String → ℕ → String → Prop
  | free {current : String} {suffix : ℕ} :
    current ∉ usedIds → SuffixSearch base usedIds current suffix current
  | taken {current : String} {suffix : ℕ} {unitId : String} :
    current ∈ usedIds → SuffixSearch base usedIds (candidate base suffix) (suffix + 1) unitId →
    SuffixSearch base usedIds current suffix unitId

theorem SuffixSearch.unique {base : String} {usedIds : List String} {current : String} {suffix : ℕ}
    {unitId unitId' : String} (h : SuffixSearch base usedIds current suffix unitId)
    (h' : SuffixSearch base usedIds current suffix unitId') : unitId = unitId' := by
  induction h with
  | free hfree =>
    cases h' with
    | free => rfl
    | taken htaken => exact absurd htaken hfree
  | taken htaken _ ih =>
    cases h' with
    | free hfree => exact absurd htaken hfree
    | taken _ hrest => exact ih hrest

/-- With enough fuel the bounded loop is the loop. -/
theorem suffixSearch_freeCandidate {base : String} {usedIds : List String} {fuel suffix : ℕ}
    (h : freeCandidate base usedIds fuel suffix ∉ usedIds) :
    SuffixSearch base usedIds (candidate base suffix) (suffix + 1)
      (freeCandidate base usedIds fuel suffix) := by
  induction fuel generalizing suffix with
  | zero => exact .free h
  | succ fuel ih =>
    rw [freeCandidate] at h ⊢
    split_ifs at h ⊢ with hused
    · exact .taken hused (ih h)
    · exact .free h

theorem suffixSearch_assignId (kindValue name : String) (usedIds : List String) :
    SuffixSearch (kindValue ++ "::" ++ slugify name) usedIds (kindValue ++ "::" ++ slugify name) 2
      (assignId kindValue name usedIds) := by
  unfold assignId
  dsimp only
  split_ifs with hused
  · exact .taken hused (suffixSearch_freeCandidate (freeCandidate_notMem _ _ _))
  · exact .free hused

/-- `_assign_id` ends for every name, and its id is the one of the model. -/
theorem suffixSearch_iff {kindValue name : String} {usedIds : List String} {unitId : String} :
    SuffixSearch (kindValue ++ "::" ++ slugify name) usedIds (kindValue ++ "::" ++ slugify name) 2
      unitId ↔ unitId = assignId kindValue name usedIds := by
  constructor
  · exact fun h => h.unique (suffixSearch_assignId kindValue name usedIds)
  · rintro rfl
    exact suffixSearch_assignId kindValue name usedIds

theorem freeCandidate_ne_empty (base : String) (usedIds : List String) (fuel suffix : ℕ) :
    freeCandidate base usedIds fuel suffix ≠ "" := by
  induction fuel generalizing suffix with
  | zero => simp [freeCandidate]
  | succ fuel ih =>
    rw [freeCandidate]
    split_ifs
    · exact ih _
    · simp

theorem assignId_ne_empty (kindValue name : String) (usedIds : List String) :
    assignId kindValue name usedIds ≠ "" := by
  unfold assignId
  dsimp only
  split_ifs
  · exact freeCandidate_ne_empty _ _ _ _
  · simp

/-! ### Ids of a sequence of units -/

/-- The ids that units get one after the other. -/
def unitIds (usedIds : List String) : List RawExtractedUnit → List String
  | [] => []
  | raw :: rest =>
    let unitId := assignId raw.kind.value raw.name usedIds
    unitId :: unitIds (usedIds ++ [unitId]) rest

@[simp] theorem length_unitIds (usedIds : List String) (raws : List RawExtractedUnit) :
    (unitIds usedIds raws).length = raws.length := by
  induction raws generalizing usedIds with
  | nil => rfl
  | cons raw rest ih => simp [unitIds, ih]

/-- What comes later does not change the ids that were given before. -/
theorem unitIds_append (usedIds : List String) (raws later : List RawExtractedUnit) :
    unitIds usedIds (raws ++ later) =
      unitIds usedIds raws ++ unitIds (usedIds ++ unitIds usedIds raws) later := by
  induction raws generalizing usedIds with
  | nil => simp [unitIds]
  | cons raw rest ih => simp [unitIds, ih]

theorem nodup_append_unitIds {usedIds : List String} (hnd : usedIds.Nodup)
    (raws : List RawExtractedUnit) : (usedIds ++ unitIds usedIds raws).Nodup := by
  induction raws generalizing usedIds with
  | nil => simpa [unitIds] using hnd
  | cons raw rest ih =>
    have hfresh := assignId_notMem raw.kind.value raw.name usedIds
    have hone : (usedIds ++ [assignId raw.kind.value raw.name usedIds]).Nodup := by
      rw [List.nodup_append_comm]
      simpa using ⟨hfresh, hnd⟩
    simpa [unitIds] using ih hone

theorem nodup_unitIds (raws : List RawExtractedUnit) : (unitIds [] raws).Nodup := by
  simpa using nodup_append_unitIds List.nodup_nil raws

/-- A name that looks like another one with a suffix, and names that slug to nothing. -/
example : unitIds [] [⟨.service, "Order", .dict⟩, ⟨.service, "order", .dict⟩,
      ⟨.service, "Order_2", .dict⟩, ⟨.service, "", .dict⟩, ⟨.service, "--", .dict⟩] =
    ["service::order", "service::order_2", "service::order_2_2", "service::", "service::_2"] := by
  decide +kernel

theorem unitIds_ne_empty (usedIds : List String) (raws : List RawExtractedUnit) :
    ∀ id ∈ unitIds usedIds raws, id ≠ "" := by
  induction raws generalizing usedIds with
  | nil => simp [unitIds]
  | cons raw rest ih =>
    intro id hid
    rcases List.mem_cons.mp hid with rfl | hid
    · exact assignId_ne_empty raw.kind.value raw.name usedIds
    · exact ih _ id hid

theorem assignUnits_eq (relativePath : String) (raws : List RawExtractedUnit)
    (usedIds : List String) :
    (assignUnits relativePath raws usedIds).1.map PendingUnit.raw = raws ∧
      (assignUnits relativePath raws usedIds).1.map PendingUnit.assignedId = unitIds usedIds raws ∧
      (assignUnits relativePath raws usedIds).2 = usedIds ++ unitIds usedIds raws := by
  induction raws generalizing usedIds with
  | nil => simp [assignUnits, unitIds]
  | cons raw rest ih => simp [assignUnits, unitIds, ih]

/-! ### Ids of a run -/

/-- The ids in use are those of the pending units, all different and none empty. -/
structure Numbered (pendingUnits : List PendingUnit) (usedIds : List String) : Prop where
  ids : pendingUnits.map PendingUnit.assignedId = usedIds
  nodup : usedIds.Nodup
  nonempty : ∀ id ∈ usedIds, id ≠ ""

theorem Numbered.nodup_map {pendingUnits : List PendingUnit} {usedIds : List String}
    (h : Numbered pendingUnits usedIds) : (pendingUnits.map PendingUnit.assignedId).Nodup :=
  h.ids ▸ h.nodup

theorem Numbered.id_ne_empty {pendingUnits : List PendingUnit} {usedIds : List String}
    (h : Numbered pendingUnits usedIds) : ∀ pu ∈ pendingUnits, pu.assignedId ≠ "" :=
  fun _ hpu => h.nonempty _ (h.ids ▸ List.mem_map_of_mem hpu)

theorem Numbered.assignUnits {pendingUnits : List PendingUnit} {usedIds : List String}
    (h : Numbered pendingUnits usedIds) (relativePath : String) (raws : List RawExtractedUnit) :
    Numbered (pendingUnits ++ (assignUnits relativePath raws usedIds).1)
      (assignUnits relativePath raws usedIds).2 := by
  obtain ⟨-, hids, hused⟩ := assignUnits_eq relativePath raws usedIds
  rw [hused]
  refine ⟨by rw [List.map_append, h.ids, hids], nodup_append_unitIds h.nodup raws, ?_⟩
  intro id hid
  rcases List.mem_append.mp hid with hid | hid
  · exact h.nonempty id hid
  · exact unitIds_ne_empty usedIds raws id hid

theorem numbered_of_runComprehension [UnicodeData]
    {repoRoot scopeDescription sourceStack : String} {remainingBudgetUsd : ℚ}
    {answers : List ExtractionAnswer} {st : ExtractionState} {run : ComprehensionRun}
    (h : runComprehension repoRoot scopeDescription sourceStack remainingBudgetUsd answers =
      (st, .ok run)) : Numbered st.pendingUnits st.usedIds :=
  pendingUnits_rule ⟨rfl, List.nodup_nil, by simp⟩
    (fun _ _ relativePath raws hnumbered => hnumbered.assignUnits relativePath raws) h

/-! ### Characters of ids -/

/-- No quote is in an id, so a message that quotes it can be read back. -/
def QuoteFree (s : String) : Prop := '\'' ∉ s.toList

theorem quoteFree_slugify (name : String) : QuoteFree (slugify name) := by
  intro h
  rcases (isSlug_slugify name).chars '\'' h with h' | h'
  · exact absurd h' (by decide)
  · exact absurd h' (by decide)

theorem QuoteFree.append {s t : String} (hs : QuoteFree s) (ht : QuoteFree t) :
    QuoteFree (s ++ t) := by
  rw [QuoteFree, String.toList_append, List.mem_append]
  exact fun h => h.elim hs ht

theorem quoteFree_candidate {base : String} (h : QuoteFree base) (suffix : ℕ) :
    QuoteFree (candidate base suffix) := by
  refine (h.append (by unfold QuoteFree; decide)).append ?_
  intro hmem
  rw [Nat.toString_eq_repr, Nat.toList_repr] at hmem
  have hdigit := Nat.isDigit_of_mem_toDigits (by decide) (by decide) hmem
  exact absurd hdigit (by decide)

theorem quoteFree_freeCandidate {base : String} (h : QuoteFree base) (usedIds : List String)
    (fuel suffix : ℕ) : QuoteFree (freeCandidate base usedIds fuel suffix) := by
  induction fuel generalizing suffix with
  | zero => exact quoteFree_candidate h suffix
  | succ fuel ih =>
    rw [freeCandidate]
    split_ifs
    · exact ih _
    · exact quoteFree_candidate h suffix

theorem quoteFree_assignId (kind : SemanticUnitKind) (name : String) (usedIds : List String) :
    QuoteFree (assignId kind.value name usedIds) := by
  have hkind : QuoteFree kind.value := by
    unfold QuoteFree
    cases kind <;> decide
  have hbase : QuoteFree (kind.value ++ "::" ++ slugify name) :=
    (hkind.append (by unfold QuoteFree; decide)).append (quoteFree_slugify name)
  unfold assignId
  dsimp only
  split_ifs
  · exact quoteFree_freeCandidate hbase _ _ _
  · exact hbase

theorem quoteFree_assignUnits (relativePath : String) (raws : List RawExtractedUnit)
    (usedIds : List String) :
    ∀ pu ∈ (assignUnits relativePath raws usedIds).1, QuoteFree pu.assignedId := by
  induction raws generalizing usedIds with
  | nil => simp [assignUnits]
  | cons raw rest ih =>
    intro pu hpu
    rcases List.mem_cons.mp hpu with rfl | hpu
    · exact quoteFree_assignId raw.kind raw.name usedIds
    · exact ih _ pu hpu

theorem quoteFree_of_runComprehension [UnicodeData]
    {repoRoot scopeDescription sourceStack : String} {remainingBudgetUsd : ℚ}
    {answers : List ExtractionAnswer} {st : ExtractionState} {run : ComprehensionRun}
    (h : runComprehension repoRoot scopeDescription sourceStack remainingBudgetUsd answers =
      (st, .ok run)) : ∀ pu ∈ st.pendingUnits, QuoteFree pu.assignedId := by
  refine pendingUnits_rule (I := fun pendingUnits _ => ∀ pu ∈ pendingUnits,
    QuoteFree pu.assignedId) (by simp) ?_ h
  intro pendingUnits usedIds relativePath raws hquotes pu hpu
  rcases List.mem_append.mp hpu with hpu | hpu
  · exact hquotes pu hpu
  · exact quoteFree_assignUnits relativePath raws usedIds pu hpu

end StackMigrate
