import Mathlib.Data.Finite.Defs
import Mathlib.Data.Fintype.EquivFin
import Mathlib.Data.Set.Finite.Basic
import Mathlib.Order.WellFounded
import Mathlib.Logic.Relation
import Mathlib.Tactic.Common

/-!
# Sets that block themselves

In a waiting relation, a set blocks itself when each of its members waits for another
member. A finite set can only do so around a cycle.
-/

namespace Blocking

open Relation

variable {α : Type*} (waits : α → α → Prop)

/-- Nothing waits for itself, not even indirectly. -/
def Acyclic : Prop := ∀ a, ¬ TransGen waits a a

/-- Every member waits for a member. -/
def SelfBlocking (B : Set α) : Prop := ∀ a ∈ B, ∃ b ∈ B, waits a b

variable {waits}

theorem Acyclic.mono {waits' : α → α → Prop} (h : Acyclic waits)
    (himp : ∀ a b, waits' a b → waits a b) : Acyclic waits' := by
  intro a ha
  exact h a (TransGen.mono himp a a ha)

/-- A finite nonempty set has a member that waits for none of the others. -/
theorem Acyclic.exists_free (h : Acyclic waits) {B : Set α} (hfin : B.Finite)
    (hne : B.Nonempty) : ∃ a ∈ B, ∀ b ∈ B, ¬ waits a b := by
  have : Finite B := hfin
  let below : B → B → Prop := fun x y => TransGen waits y x
  have htrans : IsTrans B below := ⟨fun x y z hxy hyz => hyz.trans hxy⟩
  have hirrefl : Std.Irrefl below := ⟨fun x => h x⟩
  have hwf : WellFounded below := Finite.wellFounded_of_trans_of_irrefl below
  obtain ⟨b₀, hb₀⟩ := hne
  obtain ⟨a, -, hmin⟩ := hwf.has_min Set.univ ⟨⟨b₀, hb₀⟩, trivial⟩
  refine ⟨a, a.2, ?_⟩
  intro b hb hwaits
  exact hmin ⟨b, hb⟩ trivial (.single hwaits)

theorem Acyclic.eq_empty (h : Acyclic waits) {B : Set α} (hfin : B.Finite)
    (hB : SelfBlocking waits B) : B = ∅ := by
  by_contra hne
  obtain ⟨a, ha, hfree⟩ := h.exists_free hfin (Set.nonempty_iff_ne_empty.mpr hne)
  obtain ⟨b, hb, hwaits⟩ := hB a ha
  exact hfree b hb hwaits

/-- What lies on a cycle through a point blocks itself. -/
theorem selfBlocking_cycle (a : α) :
    SelfBlocking waits {b | TransGen waits a b ∧ TransGen waits b a} := by
  rintro b ⟨hab, hba⟩
  obtain ⟨c, hbc, hca⟩ := TransGen.head'_iff.mp hba
  have hac : TransGen waits a c := hab.tail hbc
  rcases reflTransGen_iff_eq_or_transGen.mp hca with hc | hca
  · exact ⟨c, ⟨hac, hc ▸ hac⟩, hbc⟩
  · exact ⟨c, ⟨hac, hca⟩, hbc⟩

/-- Where finitely many points wait at all, cycles are the only sets that block themselves. -/
theorem acyclic_iff (hfin : {a | ∃ b, waits a b}.Finite) :
    Acyclic waits ↔ ∀ B : Set α, SelfBlocking waits B → B = ∅ := by
  constructor
  · intro h B hB
    refine h.eq_empty (hfin.subset ?_) hB
    intro a ha
    obtain ⟨b, -, hwaits⟩ := hB a ha
    exact ⟨b, hwaits⟩
  · intro h a ha
    have hempty := h _ (selfBlocking_cycle a)
    have hmem : a ∈ {b | TransGen waits a b ∧ TransGen waits b a} := ⟨ha, ha⟩
    rw [hempty] at hmem
    exact hmem

end Blocking
