import StackMigrate.Core.Text
import StackMigrate.Graph.Collaborators
import Mathlib.Data.List.Sort
import Mathlib.Data.String.Basic

/-!
# Synthesis

Deterministic planning: every unit has a target path, units with the same path share a
task, and dependencies between units become dependencies between tasks.
-/

namespace StackMigrate

open KeyedList

/-! ### The FastAPI adapter -/

/-- `_KIND_TO_DIR`. -/
def kindToDir : SemanticUnitKind → String
  | .endpoint => "app/routers"
  | .service => "app/services"
  | .repository => "app/repositories"
  | .dataModel => "app/schemas"
  | .middleware => "app/middleware"
  | .config => "app/core"
  | .utility => "app/utils"

/-- `path.rsplit("/", 1)[-1]`. -/
def lastComponent (path : List Char) : List Char :=
  (path.reverse.takeWhile (· ≠ '/')).reverse

/-- `name.rsplit(".", 1)[0]`. -/
def dropExtension (name : List Char) : List Char :=
  if '.' ∈ name then ((name.reverse.dropWhile (· ≠ '.')).drop 1).reverse else name

/-- `stem[: -len(suffix)] if stem.endswith(suffix) else stem`. -/
def dropSuffix (suffix stem : List Char) : List Char :=
  if suffix.isSuffixOf stem then stem.take (stem.length - suffix.length) else stem

/-- Endpoints are grouped by their source controller, everything else by its own name. -/
def moduleNameFor (unit : SemanticUnit) (name : String) : String :=
  match unit.kind, unit.sourceFiles with
  | .endpoint, sourceFile :: _ =>
    let stem := dropSuffix "Controller".toList (dropExtension (lastComponent sourceFile.toList))
    let module := slugify (String.ofList stem)
    if module = "" then "router" else module
  | _, _ => slugify name

def suggestTargetPath (unit : SemanticUnit) : String :=
  let name := match unit.payload.name? with
    | some name => if name = "" then unit.id else name
    | none => unit.id
  kindToDir unit.kind ++ "/" ++ moduleNameFor unit name ++ ".py"

/-! ### The plan -/

/-- `path_to_task_id[path]`. -/
def taskIdForPath (path : String) : String := "task::" ++ slugify path

/-- The keys of `path_to_units`, in insertion order. -/
def targetPaths (units : List SemanticUnit) : List String :=
  collect id (units.map suggestTargetPath)

/-- `path_to_units[path]`. -/
def unitsForPath (units : List SemanticUnit) (path : String) : List SemanticUnit :=
  units.filter fun unit => suggestTargetPath unit = path

/-- `unit_to_task_id.get(id)`: the last unit with that id decides. -/
def unitToTaskId (units : List SemanticUnit) (unitId : String) : Option String :=
  (lookup SemanticUnit.id (collect SemanticUnit.id units) unitId).map fun unit =>
    taskIdForPath (suggestTargetPath unit)

/-- The sorted set of the other tasks that the units of one path depend on. -/
def taskDependencies (units : List SemanticUnit) (path : String) : List String :=
  ((((unitsForPath units path).flatMap SemanticUnit.dependsOnUnitIds).filterMap fun depId =>
    (unitToTaskId units depId).filter (· ≠ taskIdForPath path)).dedup).insertionSort (· ≤ ·)

def taskPurpose (units : List SemanticUnit) : String :=
  match units with
  | [] => ""
  | unit :: _ =>
    unit.kind.value ++ ": " ++
      String.intercalate ", " (units.map fun u => u.payload.name?.getD u.id)

def taskForPath (units : List SemanticUnit) (path : String) : MigrationTask :=
  { id := taskIdForPath path
    sourceUnitIds := (unitsForPath units path).map SemanticUnit.id
    targetFiles := [⟨path, taskPurpose (unitsForPath units path)⟩]
    dependsOnTaskIds := taskDependencies units path }

/-- `run_synthesis` with the FastAPI adapter. -/
def runSynthesis (comprehension : ComprehensionResult) : List MigrationTask :=
  (targetPaths comprehension.units).map (taskForPath comprehension.units)

/-- `get_target_synthesis_adapter`: one adapter is registered. -/
def getTargetSynthesisAdapter (stackKey : String) : Except PyException Unit :=
  if stackKey = "fastapi" then .ok ()
  else
    .error (.valueError
      ("No target synthesis adapter registered for stack '" ++ stackKey ++
        "'. Available: fastapi"))

def synthesisNode (s : GraphState) : NodeResult Event :=
  match s.comprehension with
  | some comprehension =>
    if comprehension.units.isEmpty then
      { update := .ok noPlan, record := .synthesis }
    else
      { update := (getTargetSynthesisAdapter s.config.targetStack).map fun _ =>
          { tasks := some (runSynthesis comprehension)
            phase := some .editing }
        record := .synthesis }
  | none => { update := .ok noPlan, record := .synthesis }
where
  noPlan : Update :=
    { phase := some .failed
      errorLog := ["Synthesis skipped: no comprehension result (or zero units) to plan from."] }

theorem status_runSynthesis {comprehension : ComprehensionResult} {t : MigrationTask}
    (h : t ∈ runSynthesis comprehension) : t.status = .pending := by
  simp only [runSynthesis, List.mem_map] at h
  obtain ⟨path, -, rfl⟩ := h
  rfl

end StackMigrate
