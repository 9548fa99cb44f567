import StackMigrate.Graph.Records
import StackMigrate.Api.Decisions

/-!
# The trace does not steer the run

A step looks at state, place and clock; the trace only records. Two snapshots that differ in
the interrupts on their record therefore go on alike. They differ so where a run was decided
on before its worker came to the gate.
-/

namespace StackMigrate

namespace Snapshot

variable (c : Snapshot) (i : Input) (t : List Event)

def withTrace : Snapshot := { c with trace := t }

@[simp] theorem withTrace_state : (c.withTrace t).state = c.state := rfl
@[simp] theorem withTrace_next : (c.withTrace t).next = c.next := rfl
@[simp] theorem withTrace_trace : (c.withTrace t).trace = t := rfl

theorem move_withTrace (event : Event) (result : Except PyException (GraphState × Next)) :
    (c.withTrace t).move i event result = (c.move i event result).withTrace (event :: t) := by
  cases result <;> rfl

theorem advance_withTrace (r : NodeResult Event) (edge : GraphState → Except PyException Next) :
    (c.withTrace t).advance i r edge = (c.advance i r edge).withTrace (r.record :: t) :=
  move_withTrace c i t _ _

theorem advanceWave_withTrace (branches : List (Send × BranchInput)) :
    (c.withTrace t).advanceWave i branches =
      (c.advanceWave i branches).withTrace (.wave (runWave branches).2 :: t) :=
  move_withTrace c i t _ _

theorem trace_move (event : Event) (result : Except PyException (GraphState × Next)) :
    (c.move i event result).trace = event :: c.trace := by
  cases result <;> rfl

end Snapshot

section Steps

variable [UnicodeData] {c c' d : Snapshot} {i : Input}

/-- A step adds one event, whatever is on record before it. -/
theorem step_withTrace (h : graph.step c i = some c') :
    ∃ event, c'.trace = event :: c.trace ∧
      ∀ t, graph.step (c.withTrace t) i = some (c'.withTrace (event :: t)) := by
  have hadvance : ∀ (r : NodeResult Event) (edge : GraphState → Except PyException Next),
      (∀ t, graph.step (c.withTrace t) i = some ((c.withTrace t).advance i r edge)) →
      some (c.advance i r edge) = some c' →
      ∃ event, c'.trace = event :: c.trace ∧
        ∀ t, graph.step (c.withTrace t) i = some (c'.withTrace (event :: t)) := by
    rintro r edge hstep ⟨⟩
    exact ⟨r.record, Snapshot.trace_advance c i r edge, fun t => by
      rw [hstep t, Snapshot.advance_withTrace]⟩
  simp only [graph, step] at h
  split at h
  case h_3 sends arrivals hnext =>
    split_ifs at h with hperm
    cases h
    refine ⟨_, Snapshot.trace_move .., fun t => ?_⟩
    simp only [graph, step, Snapshot.withTrace_next, hnext, hperm, if_true]
    rw [Snapshot.advanceWave_withTrace]
  case h_9 hnext =>
    cases h
    exact ⟨_, rfl, fun t => by simp [graph, step, hnext, Snapshot.moved, Snapshot.withTrace]⟩
  case h_13 => cases h
  all_goals
    next hnext => exact hadvance _ _ (fun t => by simp [graph, step, hnext]) h

end Steps

/-! ### Snapshots that go on alike -/

def Event.isInterrupt : Event → Bool
  | interrupt _ => true
  | _ => false

/-- The trace without its interrupts. -/
def uninterrupted (trace : List Event) : List Event := trace.filter fun e => !e.isInterrupt

/-- The same snapshot but for the interrupts on record. -/
structure Shadow (c d : Snapshot) : Prop where
  state : c.state = d.state
  next : c.next = d.next
  clock : c.clock = d.clock
  trace : uninterrupted c.trace = uninterrupted d.trace

namespace Shadow

variable {c c' d : Snapshot} {i : Input}

theorem refl (c : Snapshot) : Shadow c c := ⟨rfl, rfl, rfl, rfl⟩

theorem eq_withTrace (h : Shadow c d) : d = c.withTrace d.trace := by
  obtain ⟨hstate, hnext, hclock, -⟩ := h
  cases c
  cases d
  simp_all [Snapshot.withTrace]

theorem mem_trace (h : Shadow c d) {event : Event} (hevent : event.isInterrupt = false) :
    event ∈ c.trace ↔ event ∈ d.trace := by
  have hmem : ∀ trace : List Event, event ∈ uninterrupted trace ↔ event ∈ trace := by
    simp [uninterrupted, hevent]
  rw [← hmem c.trace, h.trace, hmem]

theorem publishCalls_eq (h : Shadow c d) : publishCalls c.trace = publishCalls d.trace := by
  have hsame : ∀ trace : List Event, publishCalls (uninterrupted trace) = publishCalls trace := by
    intro trace
    rw [publishCalls, uninterrupted, List.filterMap_filter]
    refine List.filterMap_congr fun e _ => ?_
    cases e <;> rfl
  rw [← hsame c.trace, h.trace, hsame]

variable [UnicodeData]

theorem step (h : Shadow c d) (hstep : graph.step c i = some c') :
    ∃ d', graph.step d i = some d' ∧ Shadow c' d' := by
  obtain ⟨event, htrace, hany⟩ := step_withTrace hstep
  refine ⟨c'.withTrace (event :: d.trace), ?_, rfl, rfl, rfl, ?_⟩
  · rw [h.eq_withTrace]
    exact hany d.trace
  · have htail := h.trace
    unfold uninterrupted at htail ⊢
    rw [htrace, Snapshot.withTrace_trace, List.filter_cons, List.filter_cons, htail]

/-- A run that is decided on in front of the gate could as well have been interrupted first. -/
theorem resumed {decision : Json} (h : Shadow c d) (hawaiting : isAwaitingApproval c = true)
    (hresumed : resumed c decision = some c') :
    ∃ inputs d', graph.Run d inputs d' ∧ Shadow c' d' ∧
      ∀ decision', .resume decision' ∈ inputs ↔ decision' = decision := by
  unfold isAwaitingApproval at hawaiting
  split at hawaiting
  · next hpaused =>
    have hsame : { c with next := .paused } = c := by rw [← hpaused]
    unfold StackMigrate.resumed at hresumed
    rw [hsame] at hresumed
    obtain ⟨d', hd', hshadow⟩ := h.step hresumed
    exact ⟨[.resume decision], d', .single hd' trivial, hshadow, by simp⟩
  · next hgate =>
    have hgated : d.next = .node .approvalGate := h.next ▸ hgate
    have hinterrupt : graph.step d .approvalGate =
        some (d.moved .approvalGate (.interrupt (interruptPayload d.state)) d.state .paused) := by
      simp [graph, StackMigrate.step, hgated]
    have hpaused : Shadow { c with next := .paused }
        (d.moved .approvalGate (.interrupt (interruptPayload d.state)) d.state .paused) := by
      refine ⟨h.state, rfl, ?_, ?_⟩
      · simpa [Input.latest, Input.readings] using h.clock
      · have hsame := h.trace
        unfold uninterrupted at hsame ⊢
        simpa [Event.isInterrupt] using hsame
    obtain ⟨d', hd', hshadow⟩ := hpaused.step hresumed
    have hrun : graph.Run d [.approvalGate] _ := .single hinterrupt trivial
    exact ⟨[.approvalGate] ++ [.resume decision], d', hrun.snoc hd', hshadow, by simp⟩
  · cases hawaiting

end Shadow

end StackMigrate
