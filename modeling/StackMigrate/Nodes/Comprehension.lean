import StackMigrate.Core.Text
import StackMigrate.Graph.Collaborators

/-!
# Comprehension

Files are extracted one after the other until the dollars left are used up; the units
get stable ids, and the names they mention are resolved against one table of all
units, whatever file they came from.
-/

namespace StackMigrate

/-! ### Unit ids -/

/-- The `while` loop of `_assign_id`. There are no more candidates to skip than ids in
use, which is the fuel it starts with. -/
def freeCandidate (base : String) (usedIds : List String) : ℕ → ℕ → String
  | 0, suffix => base ++ "_" ++ toString suffix
  | fuel + 1, suffix =>
    if base ++ "_" ++ toString suffix ∈ usedIds then
      freeCandidate base usedIds fuel (suffix + 1)
    else base ++ "_" ++ toString suffix

def assignId (kindValue name : String) (usedIds : List String) : String :=
  let base := kindValue ++ "::" ++ slugify name
  if base ∈ usedIds then freeCandidate base usedIds usedIds.length 2 else base

/-- Bookkeeping between the extraction pass and the reference-resolution pass. -/
structure PendingUnit where
  raw : RawExtractedUnit
  sourceRelativePath : String
  assignedId : String
  deriving DecidableEq, Repr

/-- The units of one file with their ids, and all ids used afterwards. -/
def assignUnits (relativePath : String) :
    List RawExtractedUnit → List String → List PendingUnit × List String
  | [], usedIds => ([], usedIds)
  | raw :: rest, usedIds =>
    let unitId := assignId raw.kind.value raw.name usedIds
    let later := assignUnits relativePath rest (usedIds ++ [unitId])
    (⟨raw, relativePath, unitId⟩ :: later.1, later.2)

/-! ### The extraction pass -/

/-- The locals of the loop over the discovered files, with the calls made so far. -/
structure ExtractionState where
  errorLog : List String := []
  ambiguities : List String := []
  pendingUnits : List PendingUnit := []
  usedIds : List String := []
  totalCost : ℚ := 0
  calls : List ExtractionCall := []
  stoppedEarly : Bool := false

def ExtractionState.stop (st : ExtractionState) (files : List DiscoveredFile)
    (file : DiscoveredFile) : ExtractionState :=
  { st with
    errorLog := st.errorLog ++
      ["Budget exhausted before analyzing '" ++ file.relativePath ++ "' (" ++
        toString (files.length - files.idxOf file) ++ " file(s) skipped)."]
    ambiguities := st.ambiguities ++
      ["'" ++ file.relativePath ++ "' was not analyzed: budget exhausted."]
    stoppedEarly := true }

def ExtractionState.recordFailure (st : ExtractionState) (file : DiscoveredFile)
    (exc : String) : ExtractionState :=
  { st with
    errorLog := st.errorLog ++ ["Extraction failed for '" ++ file.relativePath ++ "': " ++ exc]
    ambiguities := st.ambiguities ++
      ["'" ++ file.relativePath ++ "' could not be analyzed due to an extraction error."]
    calls := st.calls ++ [⟨file.relativePath, none⟩] }

def ExtractionState.recordResult (st : ExtractionState) (file : DiscoveredFile)
    (result : FileExtractionResult) (costUsd : ℚ) : ExtractionState :=
  let assigned := assignUnits file.relativePath result.units st.usedIds
  { st with
    ambiguities := st.ambiguities ++ result.ambiguities.map (file.relativePath ++ ": " ++ ·)
    pendingUnits := st.pendingUnits ++ assigned.1
    usedIds := assigned.2
    totalCost := st.totalCost + costUsd
    calls := st.calls ++ [⟨file.relativePath, some costUsd⟩] }

/-- A file paired with what the extractor answers when it is asked about it. -/
abbrev ExtractionAnswer := DiscoveredFile × LlmOutcome FileExtractionResult

/-- The loop over the files. A response without a parsed result makes the attribute
access behind the `try` raise. -/
def extractFiles (files : List DiscoveredFile) (remainingBudgetUsd : ℚ) :
    List ExtractionAnswer → ExtractionState → ExtractionState × Except PyException Unit
  | [], st => (st, .ok ())
  | (file, outcome) :: rest, st =>
    if st.totalCost ≥ remainingBudgetUsd then (st.stop files file, .ok ())
    else
      match outcome with
      | .raised exc => extractFiles files remainingBudgetUsd rest (st.recordFailure file exc)
      | .responded none costUsd _ _ =>
        ({ st with calls := st.calls ++ [⟨file.relativePath, some costUsd⟩] },
          .error (.attributeError "'NoneType' object has no attribute 'ambiguities'"))
      | .responded (some result) costUsd _ _ =>
        extractFiles files remainingBudgetUsd rest (st.recordResult file result costUsd)

/-! ### The reference pass -/

/-- `_referenced_names`. An optional model name that is empty is dropped. -/
def referencedNames [UnicodeData] : UnitPayload → List String
  | .endpoint u =>
    u.callsServices ++ (u.requestBodyModel.toList.filter (· ≠ "")) ++
      (u.responseModel.toList.filter (· ≠ ""))
  | .service u => u.dependsOn
  | .repository u => [u.targetDataModel]
  | .dataModel u => u.relationships.flatMap findCapitalizedTokens
  | .middleware _ => []
  | .dict => []

/-- `name_to_id.get(name.lower())`: the first unit with that name, ignoring case. -/
def nameToId [UnicodeData] (pendingUnits : List PendingUnit) (name : String) : Option String :=
  (pendingUnits.find? fun pu =>
    UnicodeData.lower pu.raw.name = UnicodeData.lower name).map PendingUnit.assignedId

/-- The ids a unit depends on, and the notes about references that lead nowhere. -/
def resolveReferences [UnicodeData] (pendingUnits : List PendingUnit) (assignedId : String) :
    List String → List String × List String
  | [] => ([], [])
  | refName :: rest =>
    let later := resolveReferences pendingUnits assignedId rest
    match (nameToId pendingUnits refName).filter fun id => id ≠ "" ∧ id ≠ assignedId with
    | some resolved => (resolved :: later.1, later.2)
    | none =>
      if refName ≠ "" then
        (later.1,
          ("'" ++ assignedId ++ "' references '" ++ refName ++ "', which was not found among " ++
            "analyzed units (likely outside the migration scope, or a built-in/library type).") ::
            later.2)
      else later

def semanticUnit [UnicodeData] (pendingUnits : List PendingUnit) (pu : PendingUnit) :
    SemanticUnit :=
  { id := pu.assignedId
    kind := pu.raw.kind
    sourceFiles := [pu.sourceRelativePath]
    dependsOnUnitIds :=
      (resolveReferences pendingUnits pu.assignedId (referencedNames pu.raw.payload)).1
    payload := pu.raw.payload }

def referenceNotes [UnicodeData] (pendingUnits : List PendingUnit) (pu : PendingUnit) :
    List String :=
  (resolveReferences pendingUnits pu.assignedId (referencedNames pu.raw.payload)).2

/-! ### The node -/

/-- `get_source_adapter`: one adapter is registered. -/
def getSourceAdapter (stackKey : String) : Except PyException Unit :=
  if stackKey = "springboot" then .ok ()
  else
    .error (.valueError
      ("No source adapter registered for stack '" ++ stackKey ++ "'. Available: springboot"))

structure ComprehensionRun where
  result : ComprehensionResult
  totalCost : ℚ
  errorLog : List String

/-- `run_comprehension`, for the files that `discover_files` returned. -/
def runComprehension [UnicodeData] (repoRoot scopeDescription sourceStack : String)
    (remainingBudgetUsd : ℚ) (answers : List ExtractionAnswer) :
    ExtractionState × Except PyException ComprehensionRun :=
  match getSourceAdapter sourceStack with
  | .error e => ({}, .error e)
  | .ok () =>
    let files := answers.map Prod.fst
    let noFiles := if files.isEmpty then
        ["No source files discovered under scope '" ++ scopeDescription ++ "' for stack '" ++
          sourceStack ++ "'. Check that local_checkout_path is correct and the scope " ++
          "description matches real file/class names."]
      else []
    match extractFiles files remainingBudgetUsd answers { ambiguities := noFiles } with
    | (st, .error e) => (st, .error e)
    | (st, .ok ()) =>
      (st, .ok
        { result :=
            { sourceStack := sourceStack
              repoRoot := repoRoot
              units := st.pendingUnits.map (semanticUnit st.pendingUnits)
              unresolvedAmbiguities :=
                st.ambiguities ++ st.pendingUnits.flatMap (referenceNotes st.pendingUnits) }
          totalCost := st.totalCost
          errorLog := st.errorLog })

structure ComprehensionInput where
  now : ℚ
  answers : List ExtractionAnswer

def comprehensionNode [UnicodeData] (s : GraphState) (i : ComprehensionInput) :
    NodeResult Event :=
  if s.budget.isExhausted i.now then
    { update := .ok
        { phase := some .abortedBudget
          errorLog := ["Comprehension skipped: budget already exhausted before this node ran."] }
      record := .comprehension [] false }
  else
    let out := runComprehension s.config.localCheckoutPath s.config.scopeDescription
      s.config.sourceStack s.budget.remainingUsd i.answers
    { update := out.2.map fun run =>
        { comprehension := some run.result
          phase := some (if run.result.units.isEmpty then .failed else .synthesisPlanning)
          budget := some (s.budget.recordCall run.totalCost 1 false)
          errorLog := run.errorLog }
      record := .comprehension out.1.calls out.1.stoppedEarly }

end StackMigrate
