import StackMigrate.Graph.Replay
import StackMigrate.Nodes.Plan

/-!
# What becomes of a reference

A name that a unit mentions is looked up in one table, in which the first unit of each name
stands. A name that several units share is taken for the first of them without a word, and a
unit that mentions its own name is told that nobody has it.
-/

namespace StackMigrate

section Tables

variable [UnicodeData]

/-- The analyzed units with that name, ignoring case. -/
def namesakes (pendingUnits : List PendingUnit) (refName : String) : List PendingUnit :=
  pendingUnits.filter fun pu => UnicodeData.lower pu.raw.name = UnicodeData.lower refName

omit [UnicodeData] in
/-- The note about a name that leads nowhere. -/
def notFoundNote (assignedId refName : String) : String :=
  "'" ++ assignedId ++ "' references '" ++ refName ++ "', which was not found among " ++
    "analyzed units (likely outside the migration scope, or a built-in/library type)."

omit [UnicodeData] in
/-- A note that mentions the name, and not as one that was not found. -/
def NamesClash (note refName : String) : Prop :=
  (∃ before after, note = before ++ refName ++ after) ∧
    ∀ assignedId name, note ≠ notFoundNote assignedId name

/-- A reference of the unit has found its place in the result. -/
structure Accounted (pendingUnits : List PendingUnit) (notes : List String) (pu : PendingUnit)
    (unit : SemanticUnit) (refName : String) : Prop where
  resolved : ∀ other, namesakes pendingUnits refName = [other] →
    other.assignedId ≠ pu.assignedId → other.assignedId ∈ unit.dependsOnUnitIds
  clash : 2 ≤ (namesakes pendingUnits refName).length → ∃ note ∈ notes, NamesClash note refName
  missing : notFoundNote pu.assignedId refName ∈ notes ↔ namesakes pendingUnits refName = []

/-- Every reference is accounted for, in the units of the result and in the notes of the
reference pass. -/
structure AllAccounted (pendingUnits : List PendingUnit) (result : ComprehensionResult)
    (notes : List String) : Prop where
  references : ∀ pu ∈ pendingUnits, ∃ unit ∈ result.units, unit.id = pu.assignedId ∧
    ∀ refName ∈ referencedNames pu.raw.payload, refName ≠ "" →
      Accounted pendingUnits notes pu unit refName
  dependencies : ∀ unit ∈ result.units, ∀ id ∈ unit.dependsOnUnitIds,
    id ≠ unit.id ∧ id ∈ result.units.map SemanticUnit.id

/-- No unit mentions its own name, or one that several units have. -/
def MentionsOneOther (pendingUnits : List PendingUnit) : Prop :=
  ∀ pu ∈ pendingUnits, ∀ refName ∈ referencedNames pu.raw.payload, refName ≠ "" →
    UnicodeData.lower pu.raw.name ≠ UnicodeData.lower refName ∧
      (namesakes pendingUnits refName).length ≤ 1

variable {pendingUnits : List PendingUnit} {usedIds : List String} {pu : PendingUnit}
  {assignedId refName note : String}

/-! ### The table of names -/

theorem nameToId_eq (pendingUnits : List PendingUnit) (refName : String) :
    nameToId pendingUnits refName =
      (namesakes pendingUnits refName).head?.map PendingUnit.assignedId := by
  rw [nameToId, namesakes, List.head?_filter]

theorem mem_namesakes : pu ∈ namesakes pendingUnits refName ↔
    pu ∈ pendingUnits ∧ UnicodeData.lower pu.raw.name = UnicodeData.lower refName := by
  simp [namesakes]

/-- The notes of the reference pass for one unit. -/
theorem mem_referenceNotes : note ∈ referenceNotes pendingUnits pu ↔
    ∃ refName ∈ referencedNames pu.raw.payload, refName ≠ "" ∧
      ((nameToId pendingUnits refName).filter fun id => id ≠ "" ∧ id ≠ pu.assignedId) = none ∧
      note = notFoundNote pu.assignedId refName := by
  rw [referenceNotes]
  induction referencedNames pu.raw.payload with
  | nil => simp [resolveReferences]
  | cons refName rest ih =>
    rw [resolveReferences, List.exists_mem_cons_iff]
    split
    · next resolved hresolved =>
      rw [ih]
      refine (or_iff_right ?_).symm
      rintro ⟨-, hnone, -⟩
      cases hnone.symm.trans hresolved
    · next hnone =>
      split_ifs with hempty
      · rw [List.mem_cons, ih]
        exact or_congr ⟨fun h => ⟨hempty, hnone, h⟩, fun h => h.2.2⟩ Iff.rfl
      · rw [ih]
        exact (or_iff_right fun h => hempty h.1).symm

omit [UnicodeData] in
/-- What is in front of the first separator can be read back. -/
theorem append_separator_inj {c : Char} {a b s t : List Char} (ha : c ∉ a) (hb : c ∉ b)
    (h : a ++ c :: s = b ++ c :: t) : a = b ∧ s = t := by
  have hread : ∀ {l rest : List Char}, c ∉ l → (l ++ c :: rest).takeWhile (· ≠ c) = l := by
    intro l rest hl
    have hpass : ∀ d ∈ l, decide (d ≠ c) = true := by
      intro d hd
      simpa using fun e : d = c => hl (e ▸ hd)
    rw [List.takeWhile_append_of_pos hpass]
    simp
  have hab : a = b := by rw [← hread ha, h, hread hb]
  subst hab
  exact ⟨rfl, by simpa using List.append_cancel_left h⟩

omit [UnicodeData] in
/-- A note tells which unit and which name it is about. -/
theorem notFoundNote_injective {id id' name name' : String} (hid : QuoteFree id)
    (hid' : QuoteFree id') (h : notFoundNote id name = notFoundNote id' name') :
    id = id' ∧ name = name' := by
  have hlist := congrArg String.toList h
  simp only [notFoundNote, String.toList_append, List.append_assoc, List.append_cancel_left_eq]
    at hlist
  have hquote : "' references '".toList = '\'' :: " references '".toList := by decide
  rw [hquote, List.cons_append, List.cons_append] at hlist
  obtain ⟨hids, hrest⟩ := append_separator_inj hid hid' hlist
  have hnames := List.append_cancel_right (List.append_cancel_left hrest)
  exact ⟨String.toList_injective hids, String.toList_injective hnames⟩

/-! ### The result -/

variable (hnumbered : Numbered pendingUnits usedIds)
include hnumbered

/-- The table gives a name to the unit itself, or to nobody, if and only if the reference is
reported as missing. -/
theorem notFound_iff (hquotes : ∀ pu ∈ pendingUnits, QuoteFree pu.assignedId)
    (hpu : pu ∈ pendingUnits) (href : refName ∈ referencedNames pu.raw.payload)
    (hne : refName ≠ "") :
    notFoundNote pu.assignedId refName ∈ pendingUnits.flatMap (referenceNotes pendingUnits) ↔
      ∀ first ∈ (namesakes pendingUnits refName).head?, first = pu := by
  have hnd := hnumbered.nodup_map
  have hid := hnumbered.id_ne_empty
  rw [List.mem_flatMap]
  constructor
  · rintro ⟨pu', hpu', hnote⟩ first hfirst
    obtain ⟨refName', -, -, hnone, heq⟩ := mem_referenceNotes.mp hnote
    obtain ⟨hids, rfl⟩ := notFoundNote_injective (hquotes pu hpu) (hquotes pu' hpu') heq
    obtain rfl : pu = pu' := List.inj_on_of_nodup_map hnd hpu hpu' hids
    have hmem := (mem_namesakes.mp (List.mem_of_mem_head? hfirst)).1
    rw [nameToId_eq, Option.mem_def.mp hfirst] at hnone
    by_contra hother
    have hids' : first.assignedId ≠ pu.assignedId := fun e =>
      hother (List.inj_on_of_nodup_map hnd hmem hpu e)
    simp [hid first hmem, hids'] at hnone
  · intro hself
    refine ⟨pu, hpu, mem_referenceNotes.mpr ⟨refName, href, hne, ?_, rfl⟩⟩
    rw [nameToId_eq]
    cases hfirst : (namesakes pendingUnits refName).head? with
    | none => rfl
    | some first =>
      obtain rfl := hself first hfirst
      simp

/-- In a result that accounts for everything, no name is shared, since no note says so. -/
theorem mentionsOneOther_of_allAccounted (hquotes : ∀ pu ∈ pendingUnits, QuoteFree pu.assignedId)
    {result : ComprehensionResult}
    (h : AllAccounted pendingUnits result (pendingUnits.flatMap (referenceNotes pendingUnits))) :
    MentionsOneOther pendingUnits := by
  intro pu hpu refName href hne
  obtain ⟨unit, -, -, haccounted⟩ := h.references pu hpu
  have hacc := haccounted refName href hne
  have hone : (namesakes pendingUnits refName).length ≤ 1 := by
    by_contra hmany
    obtain ⟨note, hnote, -, hclash⟩ := hacc.clash (by omega)
    obtain ⟨pu', -, hnote⟩ := List.mem_flatMap.mp hnote
    obtain ⟨refName', -, -, -, rfl⟩ := mem_referenceNotes.mp hnote
    exact hclash _ _ rfl
  refine ⟨?_, hone⟩
  intro hown
  have hmem : pu ∈ namesakes pendingUnits refName := mem_namesakes.mpr ⟨hpu, hown⟩
  obtain ⟨only, honly⟩ := List.length_eq_one_iff.mp
    (le_antisymm hone (List.length_pos_of_mem hmem))
  obtain rfl : pu = only := by simpa [honly] using hmem
  have hnote := (notFound_iff hnumbered hquotes hpu href hne).mpr (by simp [honly])
  cases honly.symm.trans (hacc.missing.mp hnote)

theorem accounted_of_mentionsOneOther (hquotes : ∀ pu ∈ pendingUnits, QuoteFree pu.assignedId)
    (h : MentionsOneOther pendingUnits) (hpu : pu ∈ pendingUnits)
    (href : refName ∈ referencedNames pu.raw.payload) (hne : refName ≠ "") :
    Accounted pendingUnits (pendingUnits.flatMap (referenceNotes pendingUnits)) pu
      (semanticUnit pendingUnits pu) refName := by
  obtain ⟨hown, hone⟩ := h pu hpu refName href hne
  refine ⟨?_, fun hmany => by omega, ?_⟩
  · intro other hother hids
    have hbears : other ∈ namesakes pendingUnits refName := by simp [hother]
    have hmem := (mem_namesakes.mp hbears).1
    refine mem_resolveReferences.mpr
      ⟨refName, href, ?_, hnumbered.id_ne_empty other hmem, hids⟩
    rw [nameToId_eq, hother]
    rfl
  · rw [notFound_iff hnumbered hquotes hpu href hne]
    constructor
    · intro hself
      cases hfirst : (namesakes pendingUnits refName).head? with
      | none => exact List.head?_eq_none_iff.mp hfirst
      | some first =>
        obtain rfl := hself first hfirst
        exact absurd (mem_namesakes.mp (List.mem_of_mem_head? hfirst)).2 hown
    · intro hnil
      simp [hnil]

theorem allAccounted_iff (hquotes : ∀ pu ∈ pendingUnits, QuoteFree pu.assignedId)
    {result : ComprehensionResult}
    (hunits : result.units = pendingUnits.map (semanticUnit pendingUnits)) :
    AllAccounted pendingUnits result (pendingUnits.flatMap (referenceNotes pendingUnits)) ↔
      MentionsOneOther pendingUnits := by
  constructor
  · exact mentionsOneOther_of_allAccounted hnumbered hquotes
  · intro h
    constructor
    · intro pu hpu
      refine ⟨semanticUnit pendingUnits pu, ?_, rfl, ?_⟩
      · rw [hunits]
        exact List.mem_map_of_mem hpu
      · intro refName href hne
        exact accounted_of_mentionsOneOther hnumbered hquotes h hpu href hne
    · intro unit hunit id hdep
      rw [hunits] at hunit
      obtain ⟨pu, hpu, rfl⟩ := List.mem_map.mp hunit
      obtain ⟨refName, -, hname, -, hids⟩ := mem_resolveReferences.mp hdep
      refine ⟨hids, ?_⟩
      rw [nameToId_eq] at hname
      obtain ⟨first, hfirst, rfl⟩ := Option.map_eq_some_iff.mp hname
      have hmem := (mem_namesakes.mp (List.mem_of_mem_head? hfirst)).1
      rw [hunits, List.map_map]
      exact List.mem_map_of_mem hmem

omit hnumbered

/-- All references are accounted for if and only if each unit mentions names of other units
only, and no name that several units share. -/
theorem references_accounted_iff (repoRoot scopeDescription sourceStack : String)
    (remainingBudgetUsd : ℚ) (answers : List ExtractionAnswer) (st : ExtractionState)
    (run : ComprehensionRun)
    (h : runComprehension repoRoot scopeDescription sourceStack remainingBudgetUsd answers =
      (st, .ok run)) :
    AllAccounted st.pendingUnits run.result
        (run.result.unresolvedAmbiguities.drop st.ambiguities.length) ↔
      MentionsOneOther st.pendingUnits := by
  obtain ⟨-, -, hunits, hnotes, -⟩ := runComprehension_ok h
  rw [hnotes, List.drop_left]
  exact allAccounted_iff (numbered_of_runComprehension h) (quoteFree_of_runComprehension h) hunits

end Tables

attribute [local instance] asciiTables

/-- The analysis of the service classes with the given names and dependencies. -/
def analysis (services : List (String × List String)) :
    ExtractionState × Except PyException ComprehensionRun :=
  runComprehension "" "orders" "springboot" 5 (services.map fun s => serviceFile s.1 s.2)

theorem references_accounted_iff_cart : ∃ st run,
    analysis [("Order", []), ("Cart", ["order", "Invoice"])] = (st, .ok run) ∧
      AllAccounted st.pendingUnits run.result
        (run.result.unresolvedAmbiguities.drop st.ambiguities.length) := by
  have hok : (analysis [("Order", []), ("Cart", ["order", "Invoice"])]).2.toOption.isSome =
      true := by
    decide +kernel
  have hdistinct : MentionsOneOther
      (analysis [("Order", []), ("Cart", ["order", "Invoice"])]).1.pendingUnits := by
    unfold MentionsOneOther
    decide +kernel
  rcases hrun : analysis [("Order", []), ("Cart", ["order", "Invoice"])] with ⟨st, e | run⟩
  · rw [hrun] at hok
    cases hok
  · rw [hrun] at hdistinct
    exact ⟨st, run, rfl, (references_accounted_iff _ _ _ _ _ st run hrun).mpr hdistinct⟩

/-- Two units share the name that a third one mentions. -/
theorem shared_name_is_guessed : ∃ st run,
    analysis [("Order", []), ("Order", []), ("Cart", ["Order"])] = (st, .ok run) ∧
      ¬ AllAccounted st.pendingUnits run.result
        (run.result.unresolvedAmbiguities.drop st.ambiguities.length) := by
  have hok : (analysis [("Order", []), ("Order", []), ("Cart", ["Order"])]).2.toOption.isSome =
      true := by decide +kernel
  have hshared : ¬ MentionsOneOther
      (analysis [("Order", []), ("Order", []), ("Cart", ["Order"])]).1.pendingUnits := by
    unfold MentionsOneOther
    decide +kernel
  rcases hrun : analysis [("Order", []), ("Order", []), ("Cart", ["Order"])] with ⟨st, e | run⟩
  · rw [hrun] at hok
    cases hok
  · rw [hrun] at hshared
    obtain ⟨-, -, hunits, hnotes, -⟩ := runComprehension_ok hrun
    refine ⟨st, run, rfl, ?_⟩
    rwa [hnotes, List.drop_left, allAccounted_iff (numbered_of_runComprehension hrun)
      (quoteFree_of_runComprehension hrun) hunits]

end StackMigrate
