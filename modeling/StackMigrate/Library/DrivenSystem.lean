import Mathlib.Data.List.Basic
import Mathlib.Tactic.Common

/-!
# Systems driven by an environment

At every step the environment hands the system one input, and the system either
moves to its next state or refuses the input. Runs are finite lists of accepted
inputs. `RunWhere ok` keeps only the runs whose every step satisfies `ok`, so a
theorem about well-behaved environments has the same shape as one about all of
them. Runs grow at the end: an invariant is proved for one more step.
-/

/-- The inputs accepted in a state, with the state that each of them leads to. -/
structure DrivenSystem (σ ι : Type*) where
  step : σ → ι → Option σ

namespace DrivenSystem

variable {σ ι : Type*} (S : DrivenSystem σ ι)

/-- `inputs` lead from `start` to the last state, and every step satisfies `ok`. -/
inductive RunWhere (ok : σ → ι → σ → Prop) (start : σ) : List ι → σ → Prop
  | refl : RunWhere ok start [] start
  | snoc {inputs c i c'} : RunWhere ok start inputs c → S.step c i = some c' → ok c i c' →
      RunWhere ok start (inputs ++ [i]) c'

/-- All finite runs. -/
def Run (start : σ) (inputs : List ι) (c : σ) : Prop :=
  S.RunWhere (fun _ _ _ => True) start inputs c

variable {S}
variable {ok ok' : σ → ι → σ → Prop} {start c c' c'' : σ} {inputs later : List ι} {i : ι}

variable (S) (ok) (start) (inputs) in
/-- Some step on the way satisfies `p`. -/
def Met (p : σ → ι → σ → Prop) : Prop :=
  ∃ earlier i later c c', inputs = earlier ++ i :: later ∧ S.RunWhere ok start earlier c ∧
    S.step c i = some c' ∧ p c i c'

theorem Met.snoc {p : σ → ι → σ → Prop} (h : S.Met ok start inputs p) (i : ι) :
    S.Met ok start (inputs ++ [i]) p := by
  obtain ⟨earlier, j, later, c, c', rfl, hrun, hstep, hp⟩ := h
  exact ⟨earlier, j, later ++ [i], c, c', by simp, hrun, hstep, hp⟩

namespace RunWhere

theorem single (hstep : S.step c i = some c') (hok : ok c i c') : S.RunWhere ok c [i] c' := by
  have hrefl : S.RunWhere ok c [] c := .refl
  simpa using hrefl.snoc hstep hok

theorem mono (h : S.RunWhere ok start inputs c)
    (himp : ∀ c i c', S.step c i = some c' → ok c i c' → ok' c i c') :
    S.RunWhere ok' start inputs c := by
  induction h with
  | refl => exact .refl
  | snoc _ hstep hok ih => exact ih.snoc hstep (himp _ _ _ hstep hok)

theorem run (h : S.RunWhere ok start inputs c) : S.Run start inputs c :=
  h.mono fun _ _ _ _ _ => trivial

theorem trans (h : S.RunWhere ok start inputs c) (h' : S.RunWhere ok c later c') :
    S.RunWhere ok start (inputs ++ later) c' := by
  induction h' with
  | refl => simpa using h
  | snoc _ hstep hok ih => simpa [List.append_assoc] using ih.snoc hstep hok

/-- What holds at the start and survives every step holds in every state reached. -/
theorem invariant {I : σ → Prop} (h : S.RunWhere ok start inputs c) (hstart : I start)
    (hstep : ∀ c i c', I c → S.step c i = some c' → ok c i c' → I c') : I c := by
  induction h with
  | refl => exact hstart
  | snoc _ hs hok ih => exact hstep _ _ _ ih hs hok

/-- An invariant may rely on what is known of every state on the way. -/
theorem invariant_under {I J : σ → Prop} (h : S.RunWhere ok start inputs c)
    (hknown : ∀ {inputs c}, S.RunWhere ok start inputs c → I c) (hstart : J start)
    (hstep : ∀ c i c', I c → J c → S.step c i = some c' → ok c i c' → J c') : J c := by
  induction h with
  | refl => exact hstart
  | snoc hrun hs hok ih => exact hstep _ _ _ (hknown hrun) ih hs hok

/-- Under an invariant, one condition on the steps can be exchanged for another. -/
theorem mono_of_invariant {I : σ → Prop} (h : S.RunWhere ok start inputs c) (hstart : I start)
    (hinv : ∀ c i c', I c → S.step c i = some c' → ok c i c' → I c')
    (himp : ∀ c i c', I c → S.step c i = some c' → ok c i c' → ok' c i c') :
    S.RunWhere ok' start inputs c := by
  have hboth : I c ∧ S.RunWhere ok' start inputs c := by
    induction h with
    | refl => exact ⟨hstart, .refl⟩
    | snoc _ hs hok ih => exact ⟨hinv _ _ _ ih.1 hs hok, ih.2.snoc hs (himp _ _ _ ih.1 hs hok)⟩
  exact hboth.2

/-- A quantity paid for by a potential stays below what the start can pay. -/
theorem paid {I : σ → Prop} {spent potential : σ → ℕ}
    (h : S.RunWhere ok start inputs c) (hstart : I start)
    (hinv : ∀ c i c', I c → S.step c i = some c' → ok c i c' → I c')
    (hpay : ∀ c i c', I c → S.step c i = some c' → ok c i c' →
      spent c' + potential c' ≤ spent c + potential c) :
    spent c + potential c ≤ spent start + potential start := by
  have hboth : I c ∧ spent c + potential c ≤ spent start + potential start := by
    refine h.invariant
      (I := fun c => I c ∧ spent c + potential c ≤ spent start + potential start)
      ⟨hstart, Nat.le_refl _⟩ ?_
    intro c i c' hI hs hok
    exact ⟨hinv c i c' hI.1 hs hok, Nat.le_trans (hpay c i c' hI.1 hs hok) hI.2⟩
  exact hboth.2

/-- A potential that every step lowers bounds the number of steps. -/
theorem length_le {I : σ → Prop} {potential : σ → ℕ}
    (h : S.RunWhere ok start inputs c) (hstart : I start)
    (hinv : ∀ c i c', I c → S.step c i = some c' → ok c i c' → I c')
    (hlower : ∀ c i c', I c → S.step c i = some c' → ok c i c' → potential c' < potential c) :
    inputs.length + potential c ≤ potential start := by
  have hboth : I c ∧ inputs.length + potential c ≤ potential start := by
    induction h with
    | refl => exact ⟨hstart, by simp⟩
    | snoc _ hs hok ih =>
      refine ⟨hinv _ _ _ ih.1 hs hok, ?_⟩
      have hl := hlower _ _ _ ih.1 hs hok
      have hb := ih.2
      simp only [List.length_append, List.length_singleton]
      omega
  exact hboth.2

/-- Whatever a run has brought about goes back to one of its inputs. -/
theorem caused {α : Type*} (h : S.RunWhere ok start inputs c) (Present : σ → α → Prop)
    (Cause : ι → α → Prop) (hstart : ∀ a, ¬ Present start a)
    (hstep : ∀ c i c' a, S.step c i = some c' → Present c' a → Present c a ∨ Cause i a) {a : α}
    (ha : Present c a) : ∃ i ∈ inputs, Cause i a := by
  induction h with
  | refl => exact absurd ha (hstart a)
  | snoc _ hs _ ih =>
    rcases hstep _ _ _ a hs ha with hbefore | hcause
    · obtain ⟨i, hi, hcause⟩ := ih hbefore
      exact ⟨i, List.mem_append_left _ hi, hcause⟩
    · exact ⟨_, List.mem_append_right _ (List.mem_singleton_self _), hcause⟩

/-- A property of the states is kept until the first step that satisfies `p`. -/
theorem invariant_or_met {I : σ → Prop} {p : σ → ι → σ → Prop} (h : S.RunWhere ok start inputs c)
    (hstart : I start)
    (hstep : ∀ c i c', I c → S.step c i = some c' → ok c i c' → I c' ∨ p c i c') :
    I c ∨ S.Met ok start inputs p := by
  induction h with
  | refl => exact Or.inl hstart
  | @snoc inputs c i c' hrun hs hok ih =>
    rcases ih with hI | hmet
    · rcases hstep c i c' hI hs hok with hI' | hp
      · exact Or.inl hI'
      · exact Or.inr ⟨inputs, i, [], c, c', rfl, hrun, hs, hp⟩
    · exact Or.inr (hmet.snoc i)

/-- A condition on the inputs is a condition on the steps. -/
theorem of_inputs {p : ι → Prop} (h : S.RunWhere ok start inputs c) (hp : ∀ i ∈ inputs, p i) :
    S.RunWhere (fun _ i _ => p i) start inputs c := by
  induction h with
  | refl => exact .refl
  | snoc _ hs _ ih =>
    exact (ih fun i hi => hp i (List.mem_append_left _ hi)).snoc hs
      (hp _ (List.mem_append_right _ (List.mem_singleton_self _)))

/-- What holds at the end and was so before every step holds all along. -/
theorem all_along {Q : σ → Prop} (h : S.RunWhere ok start inputs c) (hc : Q c)
    (hback : ∀ c i c', S.step c i = some c' → Q c' → Q c) :
    S.RunWhere (fun _ _ c' => Q c') start inputs c := by
  induction h with
  | refl => exact .refl
  | snoc _ hs _ ih => exact (ih (hback _ _ _ hs hc)).snoc hs hc

/-- Unwinding: inputs that a relation between states does not notice can be left out. -/
theorem purge (h : S.RunWhere ok start inputs c) (keep : ι → Bool) (R : σ → σ → Prop)
    (hstart : R start start)
    (hkept : ∀ c i c' d, R c d → S.step c i = some c' → ok c i c' → keep i = true →
      ∃ d', S.step d i = some d' ∧ R c' d')
    (hdropped : ∀ c i c' d, R c d → S.step c i = some c' → ok c i c' → keep i = false →
      R c' d) :
    ∃ d, S.RunWhere (fun _ _ _ => True) start (inputs.filter keep) d ∧ R c d := by
  induction h with
  | refl => exact ⟨start, .refl, hstart⟩
  | @snoc inputs c i c' _ hs hok ih =>
    obtain ⟨d, hrun, hrel⟩ := ih
    rw [List.filter_append]
    cases hkeep : keep i with
    | true =>
      obtain ⟨d', hstep, hrel'⟩ := hkept c i c' d hrel hs hok hkeep
      exact ⟨d', by simpa [hkeep] using hrun.snoc hstep trivial, hrel'⟩
    | false => exact ⟨d, by simpa [hkeep] using hrun, hdropped c i c' d hrel hs hok hkeep⟩

end RunWhere

/-- A run either meets a condition at every step, or is in a state of a kind that it
cannot leave and that every violation leads to. -/
theorem Run.runWhere_or {I Bad : σ → Prop} (h : S.Run start inputs c) (hstart : I start)
    (hinv : ∀ c i c', I c → S.step c i = some c' → I c')
    (hviolation : ∀ c i c', I c → S.step c i = some c' → ¬ ok c i c' → Bad c')
    (hstay : ∀ c i c', I c → S.step c i = some c' → Bad c → Bad c') :
    I c ∧ (S.RunWhere ok start inputs c ∨ Bad c) := by
  induction h with
  | refl => exact ⟨hstart, Or.inl .refl⟩
  | @snoc inputs c i c' _ hstep _ ih =>
    obtain ⟨hI, hrun | hbad⟩ := ih
    · by_cases hok : ok c i c'
      · exact ⟨hinv _ _ _ hI hstep, Or.inl (hrun.snoc hstep hok)⟩
      · exact ⟨hinv _ _ _ hI hstep, Or.inr (hviolation _ _ _ hI hstep hok)⟩
    · exact ⟨hinv _ _ _ hI hstep, Or.inr (hstay _ _ _ hI hstep hbad)⟩

theorem Run.snoc (h : S.Run start inputs c) (hstep : S.step c i = some c') :
    S.Run start (inputs ++ [i]) c' :=
  RunWhere.snoc h hstep trivial

variable (S) (ok)

/-- Replay a list of inputs, stopping at the first one that is refused or violates `ok`. -/
def exec [∀ c i c', Decidable (ok c i c')] : σ → List ι → Option σ
  | c, [] => some c
  | c, i :: rest =>
    match S.step c i with
    | none => none
    | some c' => if ok c i c' then exec c' rest else none

variable {S} {ok}

theorem exec_runWhere [∀ c i c', Decidable (ok c i c')] :
    ∀ {c : σ} {inputs : List ι}, S.exec ok c inputs = some c' → S.RunWhere ok c inputs c'
  | c, [], h => by
    simp only [exec, Option.some.injEq] at h
    subst h
    exact .refl
  | c, i :: rest, h => by
    simp only [exec] at h
    split at h
    · cases h
    · next c₁ hstep =>
      split_ifs at h with hok
      exact (RunWhere.single hstep hok).trans (exec_runWhere h)

/-- A replay that ends in a state with a property is a run to such a state. -/
theorem exists_runWhere_of_exec [∀ c i c', Decidable (ok c i c')] {p : σ → Bool}
    (h : (S.exec ok start inputs).any p = true) :
    ∃ c, S.RunWhere ok start inputs c ∧ p c = true := by
  cases hexec : S.exec ok start inputs with
  | none => simp [hexec] at h
  | some c => exact ⟨c, exec_runWhere hexec, by simpa [hexec] using h⟩

end DrivenSystem
