import Mathlib.Logic.Function.Basic
import Mathlib.Tactic.Common
import Mathlib.Tactic.Simps.Basic

/-!
# Locks that are looked up by key

Parties work on keys. The first party of a key puts a lock into the table, where all others
of the key find it. Looking up, acquiring and releasing keep the discipline: one lock for
each key, locked exactly while a party is inside, and never two parties inside.
-/

namespace KeyedLocks

variable {κ ℓ π : Type*}

/-- Where a party stands with respect to its lock. -/
inductive Stage (ℓ : Type*)
  | away
  | waiting (lock : ℓ)
  | inside (lock : ℓ)

/-- The lock a party has looked up. -/
def Stage.lock? : Stage ℓ → Option ℓ
  | away => none
  | waiting lock | inside lock => some lock

structure Table (κ ℓ π : Type*) where
  lockOf : κ → Option ℓ
  locked : ℓ → Bool
  stage : π → Stage ℓ

/-- The discipline, for parties `p` that work on `keyOf p` and locks made for `madeFor lock`. -/
structure Disciplined (keyOf : π → Option κ) (madeFor : ℓ → Option κ) (t : Table κ ℓ π) :
    Prop where
  owner : ∀ {k lock}, t.lockOf k = some lock → madeFor lock = some k
  table : ∀ {p k lock}, keyOf p = some k → (t.stage p).lock? = some lock → t.lockOf k = some lock
  locked : ∀ {p lock}, t.stage p = .inside lock → t.locked lock = true
  holder : ∀ {lock}, t.locked lock = true → ∃ p k, keyOf p = some k ∧ t.stage p = .inside lock
  alone : ∀ {p q lock}, t.stage p = .inside lock → t.stage q = .inside lock → p = q

namespace Table

variable [DecidableEq κ] [DecidableEq ℓ] [DecidableEq π]

/-- Look up the lock of a key, entering the given one if there is none. -/
@[simps]
def setdefault (t : Table κ ℓ π) (p : π) (k : κ) (lock : ℓ) : Table κ ℓ π where
  lockOf := Function.update t.lockOf k (some ((t.lockOf k).getD lock))
  locked := t.locked
  stage := Function.update t.stage p (.waiting ((t.lockOf k).getD lock))

@[simps]
def acquire (t : Table κ ℓ π) (p : π) (lock : ℓ) : Table κ ℓ π where
  lockOf := t.lockOf
  locked := Function.update t.locked lock true
  stage := Function.update t.stage p (.inside lock)

@[simps]
def release (t : Table κ ℓ π) (p : π) (lock : ℓ) : Table κ ℓ π where
  lockOf := t.lockOf
  locked := Function.update t.locked lock false
  stage := Function.update t.stage p .away

end Table

namespace Disciplined

variable {keyOf : π → Option κ} {madeFor : ℓ → Option κ} {t : Table κ ℓ π} {p q : π} {k : κ}
  {lock lock' : ℓ}

/-- Nobody is inside before the first look-up. -/
theorem of_away (howner : ∀ {k lock}, t.lockOf k = some lock → madeFor lock = some k)
    (hfree : ∀ lock, t.locked lock = false) (haway : ∀ p, t.stage p = .away) :
    Disciplined keyOf madeFor t := by
  refine ⟨howner, ?_, ?_, ?_, ?_⟩
  all_goals simp [haway, hfree, Stage.lock?]

/-- Two parties inside for one key are the same. -/
theorem eq_of_inside (h : Disciplined keyOf madeFor t) (hp : keyOf p = some k)
    (hq : keyOf q = some k) (hatp : t.stage p = .inside lock) (hatq : t.stage q = .inside lock') :
    p = q := by
  have hlock := h.table hp (by rw [hatp]; rfl)
  have hlock' := h.table hq (by rw [hatq]; rfl)
  rw [hlock', Option.some.injEq] at hlock
  exact h.alone hatp (hlock ▸ hatq)

/-- A party uses the lock that was made for its key. -/
theorem madeFor_eq (h : Disciplined keyOf madeFor t) (hp : keyOf p = some k)
    (hlock : (t.stage p).lock? = some lock) : madeFor lock = some k :=
  h.owner (h.table hp hlock)

/-- Keys may be given to parties that are away. -/
theorem extend {keyOf' : π → Option κ} {madeFor' : ℓ → Option κ}
    (h : Disciplined keyOf madeFor t) (hkeys : ∀ {p k}, keyOf p = some k → keyOf' p = some k)
    (hmade : ∀ {lock k}, madeFor lock = some k → madeFor' lock = some k)
    (hnew : ∀ {p k}, keyOf' p = some k → keyOf p = some k ∨ t.stage p = .away) :
    Disciplined keyOf' madeFor' t := by
  refine ⟨fun hlock => hmade (h.owner hlock), ?_, h.locked, ?_, h.alone⟩
  · intro p k lock hp hlock
    rcases hnew hp with hold | haway
    · exact h.table hold hlock
    · rw [haway] at hlock
      cases hlock
  · intro lock hlock
    obtain ⟨p, k, hp, hat⟩ := h.holder hlock
    exact ⟨p, k, hkeys hp, hat⟩

variable [DecidableEq π]

theorem setdefault [DecidableEq κ] (h : Disciplined keyOf madeFor t) (hp : keyOf p = some k)
    (haway : t.stage p = .away) (hmade : madeFor lock = some k) :
    Disciplined keyOf madeFor (t.setdefault p k lock) := by
  have hback : ∀ {q lock'}, (t.setdefault p k lock).stage q = .inside lock' →
      t.stage q = .inside lock' := by
    intro q lock' hq
    by_cases hqp : q = p
    · subst hqp
      simp at hq
    · simpa [hqp] using hq
  refine ⟨?_, ?_, fun hq => h.locked (hback hq), ?_, fun hq hr => h.alone (hback hq) (hback hr)⟩
  · intro k' lock' hlock'
    by_cases hk : k' = k
    · subst hk
      cases hold : t.lockOf k' with
      | none =>
        simp only [Table.setdefault_lockOf, Function.update_self, hold, Option.getD_none,
          Option.some.injEq] at hlock'
        exact hlock' ▸ hmade
      | some old =>
        simp only [Table.setdefault_lockOf, Function.update_self, hold, Option.getD_some,
          Option.some.injEq] at hlock'
        exact hlock' ▸ h.owner hold
    · exact h.owner (by simpa [hk] using hlock')
  · intro q k' lock' hq hlock'
    by_cases hqp : q = p
    · subst hqp
      cases hp.symm.trans hq
      simpa [Stage.lock?] using hlock'
    · have hold := h.table hq (by simpa [hqp] using hlock')
      by_cases hk : k' = k
      · subst hk
        simp [hold]
      · simpa [hk] using hold
  · intro lock' hlock'
    obtain ⟨q, k', hq, hatq⟩ := h.holder hlock'
    have hqp : q ≠ p := by
      rintro rfl
      cases haway.symm.trans hatq
    exact ⟨q, k', hq, by simpa [hqp] using hatq⟩

theorem acquire [DecidableEq ℓ] (h : Disciplined keyOf madeFor t) (hp : keyOf p = some k)
    (hwaiting : t.stage p = .waiting lock) (hfree : t.locked lock = false) :
    Disciplined keyOf madeFor (t.acquire p lock) := by
  -- nobody else is inside, for then the lock would be locked
  have hback : ∀ {q lock'}, (t.acquire p lock).stage q = .inside lock' →
      (q = p ∧ lock' = lock) ∨ (q ≠ p ∧ lock' ≠ lock ∧ t.stage q = .inside lock') := by
    intro q lock' hq
    by_cases hqp : q = p
    · subst hqp
      simp only [Table.acquire_stage, Function.update_self, Stage.inside.injEq] at hq
      exact Or.inl ⟨rfl, hq.symm⟩
    · have hold : t.stage q = .inside lock' := by simpa [hqp] using hq
      refine Or.inr ⟨hqp, ?_, hold⟩
      rintro rfl
      rw [h.locked hold] at hfree
      cases hfree
  refine ⟨h.owner, ?_, ?_, ?_, ?_⟩
  · intro q k' lock' hq hlock'
    by_cases hqp : q = p
    · subst hqp
      exact h.table hq (by simpa [hwaiting, Stage.lock?] using hlock')
    · exact h.table hq (by simpa [hqp] using hlock')
  · intro q lock' hq
    rcases hback hq with ⟨-, rfl⟩ | ⟨-, hne, hold⟩
    · simp
    · simpa [hne] using h.locked hold
  · intro lock' hlock'
    by_cases hne : lock' = lock
    · subst hne
      exact ⟨p, k, hp, by simp⟩
    · obtain ⟨q, k', hq, hatq⟩ := h.holder (by simpa [hne] using hlock')
      have hqp : q ≠ p := by
        rintro rfl
        cases hwaiting.symm.trans hatq
      exact ⟨q, k', hq, by simpa [hqp] using hatq⟩
  · intro q r lock' hq hr
    rcases hback hq with ⟨rfl, rfl⟩ | ⟨-, hne, hq⟩
    · rcases hback hr with ⟨rfl, -⟩ | ⟨-, hne, -⟩
      · rfl
      · exact absurd rfl hne
    · rcases hback hr with ⟨-, rfl⟩ | ⟨-, -, hr⟩
      · exact absurd rfl hne
      · exact h.alone hq hr

theorem release [DecidableEq ℓ] (h : Disciplined keyOf madeFor t)
    (hinside : t.stage p = .inside lock) : Disciplined keyOf madeFor (t.release p lock) := by
  have hback : ∀ {q lock'}, (t.release p lock).stage q = .inside lock' →
      lock' ≠ lock ∧ t.stage q = .inside lock' := by
    intro q lock' hq
    by_cases hqp : q = p
    · subst hqp
      simp at hq
    · have hold : t.stage q = .inside lock' := by simpa [hqp] using hq
      refine ⟨?_, hold⟩
      rintro rfl
      exact hqp (h.alone hold hinside)
  refine ⟨h.owner, ?_, ?_, ?_, fun hq hr => h.alone (hback hq).2 (hback hr).2⟩
  · intro q k' lock' hq hlock'
    by_cases hqp : q = p
    · subst hqp
      simp [Stage.lock?] at hlock'
    · exact h.table hq (by simpa [hqp] using hlock')
  · intro q lock' hq
    obtain ⟨hne, hold⟩ := hback hq
    simpa [hne] using h.locked hold
  · intro lock' hlock'
    by_cases hne : lock' = lock
    · subst hne
      simp at hlock'
    · obtain ⟨q, k', hq, hatq⟩ := h.holder (by simpa [hne] using hlock')
      have hqp : q ≠ p := by
        rintro rfl
        cases hinside.symm.trans hatq
        exact hne rfl
      exact ⟨q, k', hq, by simpa [hqp] using hatq⟩

end Disciplined

end KeyedLocks
