import StackMigrate.Graph.TaskMoves

/-!
# Reading a trace

What the theorems about runs look for in a trace: the latest sandbox visit, the
publisher calls, and the events that belong to the review of a draft.
-/

namespace StackMigrate

namespace Event

def visit? : Event → Option SandboxVisit
  | sandboxTest visit => some visit
  | _ => none

def publishCall? : Event → Option PublishCall
  | prPublish (.called call) => some call
  | _ => none

/-- The events that only happen once a draft exists. -/
def isReview : Event → Bool
  | interrupt _ | resume _ | prPublish _ => true
  | _ => false

end Event

/-- The latest visit of `sandbox_test`. -/
def lastVisit (trace : List Event) : Option SandboxVisit := (trace.filterMap Event.visit?).head?

/-- The calls of `publisher.publish`, latest first. -/
def publishCalls (trace : List Event) : List PublishCall := trace.filterMap Event.publishCall?

/-- No draft has been shown, decided on or published. -/
def Unreviewed (trace : List Event) : Prop := ∀ e ∈ trace, e.isReview = false

@[simp] theorem lastVisit_sandboxTest (visit : SandboxVisit) (trace : List Event) :
    lastVisit (.sandboxTest visit :: trace) = some visit := rfl

theorem lastVisit_cons {e : Event} (h : e.visit? = none) (trace : List Event) :
    lastVisit (e :: trace) = lastVisit trace := by
  simp [lastVisit, h]

theorem unreviewed_cons {e : Event} {trace : List Event} :
    Unreviewed (e :: trace) ↔ e.isReview = false ∧ Unreviewed trace := by
  simp [Unreviewed]

namespace Unreviewed

variable {trace : List Event} (h : Unreviewed trace)
include h

theorem cons {e : Event} (he : e.isReview = false) : Unreviewed (e :: trace) :=
  unreviewed_cons.mpr ⟨he, h⟩

theorem interrupt_notMem (payload : InterruptPayload) : .interrupt payload ∉ trace :=
  fun hmem => by simpa [Event.isReview] using h _ hmem

theorem prPublish_notMem (branch : PublishOutcome) : .prPublish branch ∉ trace :=
  fun hmem => by simpa [Event.isReview] using h _ hmem

theorem publishCalls_eq_nil : publishCalls trace = [] := by
  refine List.filterMap_eq_nil_iff.mpr fun e he => ?_
  cases e with
  | prPublish branch => exact absurd he (h.prPublish_notMem branch)
  | _ => rfl

end Unreviewed

/-! ### Events of the nodes -/

theorem isReview_of_raising {c : Snapshot} {i : Input} {event : Event} {exc : PyException}
    (h : Raising c i event exc) : event.isReview = false := by
  cases h <;> rfl

theorem isReview_of_comprehension [UnicodeData] {s : GraphState} {answer : ComprehensionInput}
    {event : Event} {u : Update} (h : ComprehensionPass s answer event u) :
    event.isReview = false := by
  cases h <;> rfl

theorem isReview_of_sandbox {s : GraphState} {answer : SandboxInput} {event : Event} {u : Update}
    (h : SandboxPass s answer event u) : event.isReview = false := by
  cases h <;> rfl

theorem isReview_of_analysis {s : GraphState} {answer : AnalysisInput} {event : Event}
    {u : Update} (h : AnalysisPass s answer event u) : event.isReview = false := by
  cases h <;> rfl

/-! ### What never changes -/

@[simp] theorem applyAll_config (s : GraphState) (us : List Update) :
    (s.applyAll us).config = s.config := by
  induction us generalizing s with
  | nil => rfl
  | cons u us ih => rw [GraphState.applyAll_cons, ih, GraphState.apply_config]

theorem config_superstep [UnicodeData] {c c' : Snapshot} {i : Input} (h : Superstep c i c') :
    c'.state.config = c.state.config := by
  cases h <;> simp [GraphState.reconciled]

theorem config_of_run [UnicodeData] {ok : Snapshot → Input → Snapshot → Prop}
    {start c : Snapshot} {inputs : List Input} (hrun : graph.RunWhere ok start inputs c) :
    c.state.config = start.state.config :=
  hrun.invariant (I := fun c => c.state.config = start.state.config) rfl
    fun _ _ _ hc hstep _ => (config_superstep (superstep_of_step hstep)).trans hc

/-! ### The clock -/

/-- No reading of the step lies before the clock, and each sequential part of it reads the
time in order. -/
def Chronological (c : Snapshot) (i : Input) : Prop :=
  ∀ readings ∈ i.readings, (c.clock :: readings).Pairwise (· ≤ ·)

instance (c : Snapshot) (i : Input) : Decidable (Chronological c i) := by
  unfold Chronological
  infer_instance

theorem le_foldl_max (readings : List ℚ) (clock : ℚ) : clock ≤ readings.foldl max clock := by
  induction readings generalizing clock with
  | nil => exact le_refl clock
  | cons r rest ih => exact le_trans (le_max_left clock r) (ih (max clock r))

theorem le_foldl_max_of_mem {readings : List ℚ} {r : ℚ} (h : r ∈ readings) (clock : ℚ) :
    r ≤ readings.foldl max clock := by
  induction readings generalizing clock with
  | nil => cases h
  | cons x rest ih =>
    rcases List.mem_cons.mp h with rfl | h
    · exact le_trans (le_max_right clock r) (le_foldl_max rest _)
    · exact ih h _

/-- The clock has passed every reading of the step. -/
theorem le_latest {i : Input} {readings : List ℚ} {r clock : ℚ} (h : readings ∈ i.readings)
    (hr : r ∈ readings) : r ≤ i.latest clock :=
  le_foldl_max_of_mem (List.mem_flatten.mpr ⟨readings, h, hr⟩) clock

end StackMigrate
