import Mathlib.Logic.Function.Basic
import StackMigrate.Library.DrivenSystem

/-!
# Clients of one shared value

A client goes on from its own place whenever it gets a turn, and what it does to the shared
value is seen by everybody. Between the turns the surroundings change the shared value as
well. Two rules lead from the turn of one client to all interleavings: assertions that
nobody can disturb hold throughout, and a token that is only taken while it is free has one
holder.
-/

/-- `act k` is a turn of client `k`; a client that has come to its end refuses it. -/
structure SharedClients (σ ρ ι ε : Type*) where
  act : ℕ → σ → ρ → ι → Option (σ × ρ)
  meanwhile : σ → ε → Option σ

namespace SharedClients

variable {σ ρ ι ε : Type*}

structure State (σ ρ : Type*) where
  shared : σ
  place : ℕ → ρ

inductive Move (ι ε : Type*)
  | turn (k : ℕ) (i : ι)
  | meanwhile (e : ε)

variable (C : SharedClients σ ρ ι ε)

def step (s : State σ ρ) : Move ι ε → Option (State σ ρ)
  | .turn k i =>
    (C.act k s.shared (s.place k) i).map fun r => ⟨r.1, Function.update s.place k r.2⟩
  | .meanwhile e => (C.meanwhile s.shared e).map fun shared => ⟨shared, s.place⟩

/-- All interleavings of the clients and their surroundings. -/
def system : DrivenSystem (State σ ρ) (Move ι ε) where
  step := C.step

variable {C}

/-- The two ways a step is taken. -/
inductive Moved (C : SharedClients σ ρ ι ε) (s : State σ ρ) : Move ι ε → State σ ρ → Prop
  | turn {k i shared place} (hact : C.act k s.shared (s.place k) i = some (shared, place)) :
      Moved C s (.turn k i) ⟨shared, Function.update s.place k place⟩
  | meanwhile {e shared} (hmeanwhile : C.meanwhile s.shared e = some shared) :
      Moved C s (.meanwhile e) ⟨shared, s.place⟩

theorem moved_of_step {s s' : State σ ρ} {m : Move ι ε} (h : C.system.step s m = some s') :
    Moved C s m s' := by
  cases m with
  | turn k i =>
    obtain ⟨r, hact, rfl⟩ := Option.map_eq_some_iff.mp h
    exact .turn hact
  | meanwhile e =>
    obtain ⟨shared, hmeanwhile, rfl⟩ := Option.map_eq_some_iff.mp h
    exact .meanwhile hmeanwhile

/-- The surroundings only do what is allowed; the clients are not restricted. -/
def Within (allowed : σ → ε → Prop) (s : State σ ρ) : Move ι ε → State σ ρ → Prop
  | .turn _ _, _ => True
  | .meanwhile e, _ => allowed s.shared e

instance (allowed : σ → ε → Prop) [∀ shared e, Decidable (allowed shared e)] (s : State σ ρ)
    (m : Move ι ε) (s' : State σ ρ) : Decidable (Within allowed s m s') :=
  match m with
  | .turn _ _ => isTrue trivial
  | .meanwhile e => inferInstanceAs (Decidable (allowed s.shared e))

variable {allowed : σ → ε → Prop} {start s : State σ ρ} {moves : List (Move ι ε)}

/-! ### Requests -/

/-- Whether the answer to a request arrives. -/
inductive Weather
  | fair
  /-- The request never arrives. -/
  | requestLost
  /-- What was asked for is done, and the client hears of a failure all the same. -/
  | answerLost
  deriving DecidableEq, Repr

/-- A request for `op`, which may be refused. Without an answer the client goes on
`otherwise`. -/
def request (op : σ → Option (σ × ρ)) (weather : Weather) (otherwise : ρ) (shared : σ) : σ × ρ :=
  match op shared, weather with
  | none, _ | _, .requestLost => (shared, otherwise)
  | some done, .fair => done
  | some done, .answerLost => (done.1, otherwise)

/-- What comes of a request. -/
inductive Requested (op : σ → Option (σ × ρ)) (weather : Weather) (otherwise : ρ) (shared : σ) :
    σ × ρ → Prop
  | refused (hop : op shared = none) : Requested op weather otherwise shared (shared, otherwise)
  | notSent (hweather : weather = .requestLost) :
      Requested op weather otherwise shared (shared, otherwise)
  | done {done} (hweather : weather = .fair) (hop : op shared = some done) :
      Requested op weather otherwise shared done
  | unheard {done} (hweather : weather = .answerLost) (hop : op shared = some done) :
      Requested op weather otherwise shared (done.1, otherwise)

theorem requested (op : σ → Option (σ × ρ)) (weather : Weather) (otherwise : ρ) (shared : σ) :
    Requested op weather otherwise shared (request op weather otherwise shared) := by
  unfold request
  split
  · next hop => exact .refused hop
  · exact .notSent rfl
  · next hop => exact .done rfl hop
  · next hop => exact .unheard rfl hop

/-! ### Assertions that nobody disturbs -/

/-- Assertions for the places of the clients. Whoever moves keeps within `Rely`, and `Rely`
disturbs no assertion. A turn may use what is known of the shared values of the run. -/
structure Outline (C : SharedClients σ ρ ι ε) (allowed : σ → ε → Prop) (Known : σ → Prop)
    (Rely : σ → σ → Prop) (At : ℕ → σ → ρ → Prop) : Prop where
  turn : ∀ {k shared place i shared' place'}, Known shared → At k shared place →
    C.act k shared place i = some (shared', place') → Rely shared shared' ∧ At k shared' place'
  meanwhile : ∀ {shared e shared'}, allowed shared e → C.meanwhile shared e = some shared' →
    Rely shared shared'
  stable : ∀ {k shared shared' place}, Rely shared shared' → At k shared place →
    At k shared' place

/-- In every interleaving, every client finds the assertion of its place. -/
theorem Outline.at_of_run {Known : σ → Prop} {Rely : σ → σ → Prop} {At : ℕ → σ → ρ → Prop}
    (h : Outline C allowed Known Rely At)
    (hrun : C.system.RunWhere (Within allowed) start moves s)
    (hknown : ∀ {earlier later s'}, moves = earlier ++ later →
      C.system.RunWhere (Within allowed) start earlier s' → Known s'.shared)
    (hstart : ∀ k, At k start.shared (start.place k)) (k : ℕ) : At k s.shared (s.place k) := by
  induction hrun generalizing k with
  | refl => exact hstart k
  | @snoc moves s m s' hrun hstep hok ih =>
    have hs : ∀ k, At k s.shared (s.place k) := by
      refine fun k => ih ?_ k
      intro earlier later s'' hmoves
      have hlonger : moves ++ [m] = earlier ++ (later ++ [m]) := by rw [hmoves, List.append_assoc]
      exact hknown hlonger
    cases moved_of_step hstep with
    | @turn j i shared place hact =>
      obtain ⟨hrely, hat⟩ := h.turn (hknown rfl hrun) (hs j) hact
      by_cases hkj : k = j
      · subst hkj
        simpa using hat
      · simpa [hkj] using h.stable hrely (hs k)
    | meanwhile hmeanwhile => exact h.stable (h.meanwhile hok hmeanwhile) (hs k)

/-- What every move keeps to is kept to by a whole run. -/
theorem rely_of_run {Rely : σ → σ → Prop} (hrefl : ∀ shared, Rely shared shared)
    (htrans : ∀ {a b c}, Rely a b → Rely b c → Rely a c)
    (hturn : ∀ {k shared place i shared' place'},
      C.act k shared place i = some (shared', place') → Rely shared shared')
    (hmeanwhile : ∀ {shared e shared'}, allowed shared e → C.meanwhile shared e = some shared' →
      Rely shared shared')
    (hrun : C.system.RunWhere (Within allowed) start moves s) : Rely start.shared s.shared := by
  refine hrun.invariant (I := fun s => Rely start.shared s.shared) (hrefl _) ?_
  intro s m s' hs hstep hok
  cases moved_of_step hstep with
  | turn hact => exact htrans hs (hturn hact)
  | meanwhile h => exact htrans hs (hmeanwhile hok h)

/-! ### The turns of one client -/

def Move.isTurnOf (k : ℕ) : Move ι ε → Bool
  | turn j _ => j = k
  | meanwhile _ => false

/-- A client whose every turn lowers a rank has no more turns than its rank. -/
theorem turns_le {ok : State σ ρ → Move ι ε → State σ ρ → Prop} {k : ℕ} (rank : ρ → ℕ)
    (hlower : ∀ {shared place i shared' place'}, C.act k shared place i = some (shared', place') →
      rank place' < rank place)
    (hrun : C.system.RunWhere ok start moves s) :
    moves.countP (Move.isTurnOf k) + rank (s.place k) ≤ rank (start.place k) := by
  induction hrun with
  | refl => simp
  | @snoc moves s m s' _ hstep _ ih =>
    rw [List.countP_append, List.countP_singleton]
    cases moved_of_step hstep with
    | @turn n i shared place hact =>
      by_cases hn : n = k
      · subst hn
        have hrank := hlower hact
        simp only [Move.isTurnOf, decide_true, if_true, Function.update_self]
        omega
      · simpa [Move.isTurnOf, hn, Function.update_of_ne (Ne.symm hn)] using ih
    | meanwhile _ => simpa [Move.isTurnOf] using ih

/-- A client that never changes the shared value is not noticed by the others: they come to the
same places without it. -/
theorem run_without {k : ℕ}
    (hidle : ∀ {moves s i shared place}, C.system.RunWhere (Within allowed) start moves s →
      C.act k s.shared (s.place k) i = some (shared, place) → shared = s.shared)
    (hrun : C.system.RunWhere (Within allowed) start moves s) :
    ∃ s', C.system.RunWhere (Within allowed) start (moves.filter fun m => !m.isTurnOf k) s' ∧
      s'.shared = s.shared ∧ s'.place k = start.place k ∧ ∀ j, j ≠ k → s'.place j = s.place j := by
  induction hrun with
  | refl => exact ⟨start, .refl, rfl, rfl, fun _ _ => rfl⟩
  | @snoc moves s m s' hrun hstep hok ih =>
    obtain ⟨t, ht, hshared, hk, hothers⟩ := ih
    rw [List.filter_append]
    cases moved_of_step hstep with
    | @turn n i shared place hact =>
      by_cases hn : n = k
      · subst hn
        refine ⟨t, by simpa [Move.isTurnOf] using ht, ?_, hk, fun j hj => ?_⟩
        · exact hshared.trans (hidle hrun hact).symm
        · simpa [hj] using hothers j hj
      · have hact' : C.system.step t (.turn n i) =
            some ⟨shared, Function.update t.place n place⟩ := by
          simp [system, step, hshared, hothers n hn, hact]
        refine ⟨⟨shared, Function.update t.place n place⟩, ?_, rfl, ?_, fun j hj => ?_⟩
        · simpa [Move.isTurnOf, hn] using ht.snoc hact' trivial
        · simpa [Function.update_of_ne (Ne.symm hn)] using hk
        · by_cases hjn : j = n
          · subst hjn
            simp
          · simpa [hjn] using hothers j hj
    | @meanwhile e shared hmeanwhile =>
      have hmeanwhile' : C.system.step t (.meanwhile e) = some ⟨shared, t.place⟩ := by
        simp [system, step, hshared, hmeanwhile]
      have hok' : Within allowed t (.meanwhile e : Move ι ε) ⟨shared, t.place⟩ := by
        rw [Within, hshared]
        exact hok
      refine ⟨⟨shared, t.place⟩, ?_, rfl, hk, hothers⟩
      simpa [Move.isTurnOf] using ht.snoc hmeanwhile' hok'

/-! ### Tokens -/

/-- A token is taken while it is free, and nobody frees it again. A turn may use what is known of
the shared values of the run. -/
structure TakesFree {τ : Type*} (C : SharedClients σ ρ ι ε) (allowed : σ → ε → Prop)
    (Known : σ → Prop) (holds : ℕ → ρ → Option τ) (taken : σ → τ → Prop) : Prop where
  turn : ∀ {k shared place i shared' place'}, Known shared →
    C.act k shared place i = some (shared', place') →
    ∀ t, (taken shared t → taken shared' t) ∧
      (holds k place' = some t → holds k place = some t ∨ (¬ taken shared t ∧ taken shared' t))
  meanwhile : ∀ {shared e shared'}, allowed shared e → C.meanwhile shared e = some shared' →
    ∀ t, taken shared t → taken shared' t

/-- Tokens in hand are taken, each by one client. -/
structure Held {τ : Type*} (holds : ℕ → ρ → Option τ) (taken : σ → τ → Prop) (s : State σ ρ) :
    Prop where
  taken : ∀ {k t}, holds k (s.place k) = some t → taken s.shared t
  unique : ∀ {j k t}, holds j (s.place j) = some t → holds k (s.place k) = some t → j = k

section Tokens

variable {τ : Type*} {Known : σ → Prop} {holds : ℕ → ρ → Option τ} {taken : σ → τ → Prop} {t : τ}

/-- Who holds a token behind a turn held it before, or has just found it free. -/
theorem TakesFree.holder_cases (h : TakesFree C allowed Known holds taken) {n k : ℕ} {i : ι}
    {shared : σ} {place : ρ} (hknown : Known s.shared)
    (hact : C.act n s.shared (s.place n) i = some (shared, place))
    (hheld : holds k (Function.update s.place n place k) = some t) :
    holds k (s.place k) = some t ∨ (k = n ∧ ¬ taken s.shared t ∧ taken shared t) := by
  by_cases hkn : k = n
  · subst hkn
    rw [Function.update_self] at hheld
    exact ((h.turn hknown hact t).2 hheld).imp_right fun hfree => ⟨rfl, hfree⟩
  · rw [Function.update_of_ne hkn] at hheld
    exact Or.inl hheld

theorem TakesFree.held_of_run (h : TakesFree C allowed Known holds taken)
    (hknown : ∀ {moves s}, C.system.RunWhere (Within allowed) start moves s → Known s.shared)
    (hrun : C.system.RunWhere (Within allowed) start moves s)
    (hstart : ∀ k, holds k (start.place k) = none) : Held holds taken s := by
  refine hrun.invariant_under (J := Held holds taken) hknown ⟨by simp [hstart], by simp [hstart]⟩ ?_
  intro s m s' hkn hs hstep hok
  cases moved_of_step hstep with
  | @turn n i shared place hact =>
    refine ⟨?_, ?_⟩
    · intro k t hheld
      rcases h.holder_cases hkn hact hheld with hold | ⟨-, -, htaken⟩
      · exact (h.turn hkn hact t).1 (hs.taken hold)
      · exact htaken
    · intro j k t hj hk
      rcases h.holder_cases hkn hact hj with hold | ⟨hjn, hfree, -⟩
      · rcases h.holder_cases hkn hact hk with hold' | ⟨-, hfree, -⟩
        · exact hs.unique hold hold'
        · exact absurd (hs.taken hold) hfree
      · rcases h.holder_cases hkn hact hk with hold | ⟨hkn, -, -⟩
        · exact absurd (hs.taken hold) hfree
        · exact hjn.trans hkn.symm
  | meanwhile hmeanwhile =>
    exact ⟨fun hheld => h.meanwhile hok hmeanwhile _ (hs.taken hheld), hs.unique⟩

/-- A token that is taken from the start comes into nobody's hands. -/
theorem TakesFree.not_held (h : TakesFree C allowed Known holds taken)
    (hknown : ∀ {moves s}, C.system.RunWhere (Within allowed) start moves s → Known s.shared)
    (hrun : C.system.RunWhere (Within allowed) start moves s)
    (hstart : ∀ k, holds k (start.place k) = none) (ht : taken start.shared t) (k : ℕ) :
    holds k (s.place k) ≠ some t := by
  have hboth : taken s.shared t ∧ ∀ k, holds k (s.place k) ≠ some t := by
    refine hrun.invariant_under
      (J := fun s => taken s.shared t ∧ ∀ k, holds k (s.place k) ≠ some t)
      hknown ⟨ht, by simp [hstart]⟩ ?_
    rintro s m s' hkn ⟨htaken, hno⟩ hstep hok
    cases moved_of_step hstep with
    | turn hact =>
      refine ⟨(h.turn hkn hact t).1 htaken, fun k hheld => ?_⟩
      rcases h.holder_cases hkn hact hheld with hold | ⟨-, hfree, -⟩
      · exact hno k hold
      · exact hfree htaken
    | meanwhile hmeanwhile => exact ⟨h.meanwhile hok hmeanwhile t htaken, hno⟩
  exact hboth.2 k

/-- With a token comes something that its holder does once: the token is gone afterwards. -/
structure Spends (C : SharedClients σ ρ ι ε) (allowed : σ → ε → Prop)
    (holds : ℕ → ρ → Option τ) (t : τ) (used : σ → ℕ) : Prop where
  turn : ∀ {k shared place i shared' place'}, C.act k shared place i = some (shared', place') →
    used shared' ≤ used shared ∨
      (holds k place = some t ∧ holds k place' = none ∧ used shared' ≤ used shared + 1)
  meanwhile : ∀ {shared e shared'}, allowed shared e → C.meanwhile shared e = some shared' →
    used shared' ≤ used shared

/-- As long as the token is free or in hand, it has not been spent. -/
structure SpentOnce (holds : ℕ → ρ → Option τ) (taken : σ → τ → Prop) (t : τ) (used : σ → ℕ)
    (before : ℕ) (s : State σ ρ) : Prop where
  free : ¬ taken s.shared t → used s.shared ≤ before
  held : ∀ {k}, holds k (s.place k) = some t → used s.shared ≤ before
  once : used s.shared ≤ before + 1

theorem TakesFree.spentOnce (h : TakesFree C allowed Known holds taken) {used : σ → ℕ}
    (hspends : Spends C allowed holds t used)
    (hknown : ∀ {moves s}, C.system.RunWhere (Within allowed) start moves s → Known s.shared)
    (hrun : C.system.RunWhere (Within allowed) start moves s)
    (hstart : ∀ k, holds k (start.place k) = none) :
    SpentOnce holds taken t used (used start.shared) s := by
  refine hrun.invariant_under (J := SpentOnce holds taken t used (used start.shared))
    (fun hrun => And.intro (hknown hrun) (h.held_of_run hknown hrun hstart))
    ⟨by simp, by simp, by simp⟩ ?_
  rintro s m s' ⟨hkn, hheld⟩ hs hstep hok
  cases moved_of_step hstep with
  | @turn n i shared place hact =>
    have htaken := (h.turn hkn hact t).1
    rcases hspends.turn hact with hused | ⟨hspent, hgone, hused⟩
    · refine ⟨fun hfree => ?_, fun hk => ?_, ?_⟩
      · exact Nat.le_trans hused (hs.free fun ht => hfree (htaken ht))
      · rcases h.holder_cases hkn hact hk with hold | ⟨-, hfree, -⟩
        · exact Nat.le_trans hused (hs.held hold)
        · exact Nat.le_trans hused (hs.free hfree)
      · exact Nat.le_trans hused hs.once
    · refine ⟨fun hfree => absurd (htaken (hheld.taken hspent)) hfree, fun {k} hk => ?_, ?_⟩
      · rcases h.holder_cases hkn hact hk with hold | ⟨-, hfree, -⟩
        · -- only the client whose turn it is held the token, and it has spent it
          have hkn : k = n := hheld.unique hold hspent
          subst hkn
          have hnone : holds k (Function.update s.place k place k) = none := by simpa using hgone
          cases hnone.symm.trans hk
        · exact absurd (hheld.taken hspent) hfree
      · exact Nat.le_trans hused (Nat.succ_le_succ (hs.held hspent))
  | meanwhile hmeanwhile =>
    have hused := hspends.meanwhile hok hmeanwhile
    have htaken := h.meanwhile hok hmeanwhile t
    exact ⟨fun hfree => Nat.le_trans hused (hs.free fun ht => hfree (htaken ht)),
      fun hk => Nat.le_trans hused (hs.held hk), Nat.le_trans hused hs.once⟩

/-- Nothing is spent of a token that is taken from the start. -/
theorem TakesFree.used_le_of_taken (h : TakesFree C allowed Known holds taken) {used : σ → ℕ}
    (hspends : Spends C allowed holds t used)
    (hknown : ∀ {moves s}, C.system.RunWhere (Within allowed) start moves s → Known s.shared)
    (hrun : C.system.RunWhere (Within allowed) start moves s)
    (hstart : ∀ k, holds k (start.place k) = none) (ht : taken start.shared t) :
    used s.shared ≤ used start.shared := by
  refine hrun.invariant_under (J := fun s => used s.shared ≤ used start.shared)
    (fun hrun k => h.not_held hknown hrun hstart ht k) (Nat.le_refl _) ?_
  intro s m s' hno hs hstep hok
  cases moved_of_step hstep with
  | @turn n _ _ _ hact =>
    rcases hspends.turn hact with hused | ⟨hspent, -, -⟩
    · exact Nat.le_trans hused hs
    · exact absurd hspent (hno n)
  | meanwhile hmeanwhile => exact Nat.le_trans (hspends.meanwhile hok hmeanwhile) hs

end Tokens

end SharedClients
