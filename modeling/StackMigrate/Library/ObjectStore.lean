import Mathlib.Logic.Function.Basic
import Mathlib.Tactic.Common

/-!
# Stores that only grow

Under a name a store keeps one object for good: adding an object under a name in use is
refused, unless it is the same object again. What has once been read stays true.
-/

namespace ObjectStore

variable {κ ω : Type*}

/-- Everything in the first store is in the second one, under the same name. -/
def Extends (s s' : κ → Option ω) : Prop := ∀ ⦃k o⦄, s k = some o → s' k = some o

theorem Extends.refl (s : κ → Option ω) : Extends s s := fun _ _ h => h

theorem Extends.trans {s s' s'' : κ → Option ω} (h : Extends s s') (h' : Extends s' s'') :
    Extends s s'' := fun _ _ hk => h' (h hk)

variable [DecidableEq κ] [DecidableEq ω]

def add (s : κ → Option ω) (k : κ) (o : ω) : Option (κ → Option ω) :=
  match s k with
  | none => some (Function.update s k (some o))
  | some o' => if o' = o then some s else none

variable {s s' : κ → Option ω} {k : κ} {o : ω}

theorem extends_add (h : add s k o = some s') : Extends s s' := by
  unfold add at h
  split at h
  · next hfree =>
    cases h
    intro k' o' hk'
    have hne : k' ≠ k := by
      rintro rfl
      rw [hfree] at hk'
      cases hk'
    rwa [Function.update_of_ne hne]
  · split_ifs at h
    cases h
    exact Extends.refl s

theorem get_add (h : add s k o = some s') : s' k = some o := by
  unfold add at h
  split at h
  · cases h
    exact Function.update_self ..
  · next o' hk =>
    split_ifs at h with heq
    cases h
    rw [hk, heq]

end ObjectStore
