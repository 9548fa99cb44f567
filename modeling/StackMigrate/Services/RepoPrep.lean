import StackMigrate.Api.Requests
import StackMigrate.Library.SharedClients
import StackMigrate.Nodes.SourceDiscovery
import StackMigrate.Sandbox.Trees

/-!
# Preparing the repositories of a run

`GitRepoPreparer` clones the source and clones or scaffolds the target, below one directory
for each run. A job that its worker does not acknowledge is delivered again, so several
deliveries of one run may be under way, next to those of other runs. What `git` makes of a
clone is a parameter.
-/

namespace StackMigrate

open FileSystem

/-! ### The preparer -/

/-- `_TARGET_SCAFFOLDS.get`. -/
def targetScaffold (targetStack : String) : Option (List (String × String)) :=
  if targetStack = "fastapi" then
    some
      [("requirements.txt",
          "fastapi>=0.115.0\nuvicorn[standard]>=0.32.0\npydantic>=2.9.0\npytest>=8.3.0\n" ++
            "httpx>=0.27.0\n"),
        ("app/__init__.py", ""),
        ("app/main.py",
          "from fastapi import FastAPI\n\napp = FastAPI()\n\n\n@app.get(\"/health\")\n" ++
            "async def health():\n    return \x7b\"status\": \"ok\"\x7d\n"),
        ("tests/__init__.py", ""),
        ("tests/test_health.py",
          "from fastapi.testclient import TestClient\n\nfrom app.main import app\n\n" ++
            "client = TestClient(app)\n\n\ndef test_health():\n" ++
            "    response = client.get(\"/health\")\n    assert response.status_code == 200\n")]
  else none

inductive Checkout
  | source | target
  deriving DecidableEq, Repr

def Checkout.name : Checkout → String
  | source => "source"
  | target => "target"

/-- `os.path.join(self._base_dir, run_id, name)`. -/
def checkoutPath (baseDir runId : String) (checkout : Checkout) : String :=
  joinRelative (joinRelative baseDir runId) checkout.name

/-- `open(path, "w")` followed by one `write`, for a path that is not resolved. -/
def openAndWrite (fs : FileSystem) (path content : String) : FsResult Unit :=
  fs.writeFile ((if startsWith path "/" then [] else fs.cwd) ++ splitOnChar path '/') content

/-- `git.Repo.clone_from(repo_url, dest, depth=1, branch=branch)`, with what the remote
answers. -/
abbrev CloneFrom (α : Type) :=
  α → FileSystem → (repoUrl : String) → (branch : Option String) → (dest : String) → FsResult Unit

/-- A job as a worker gets it. -/
structure Delivery where
  runId : String
  request : MigrationRequest

namespace Delivery

/-- The target repository, if there is one to clone. -/
def targetRepoUrl? (delivery : Delivery) : Option String :=
  delivery.request.targetRepoUrl.filter (· ≠ "")

/-- `ref`, if it is passed on as the branch. -/
def sourceBranch? (delivery : Delivery) : Option String :=
  some delivery.request.sourceRef |>.filter (· ≠ "")

end Delivery

/-- How far a worker has come with a delivery. -/
inductive Preparing
  /-- `os.makedirs(os.path.dirname(dest), exist_ok=True)` in `_clone`. -/
  | makingRoom (checkout : Checkout)
  | cloning (checkout : Checkout)
  /-- `os.makedirs(dest, exist_ok=True)` in `prepare_target`. -/
  | makingTarget
  | makingRoomFor (path content : String) (rest : List (String × String))
  | writing (path content : String) (rest : List (String × String))
  /-- The graph is started. -/
  | prepared
  | raised (exc : PyException)
  deriving DecidableEq, Repr

/-- The loop over the scaffold. -/
def nextFile : List (String × String) → Preparing
  | [] => .prepared
  | (path, content) :: rest => .makingRoomFor path content rest

def noScaffold (targetStack : String) : PyException :=
  .valueError ("No scaffold available for target stack '" ++ targetStack ++
    "' and no target_repo_url given.")

/-- Where a worker goes on behind a call that has not raised. -/
def nextPlace (delivery : Delivery) : Preparing → Preparing
  | .makingRoom checkout => .cloning checkout
  | .cloning .source =>
    if delivery.targetRepoUrl?.isSome then .makingRoom .target else .makingTarget
  | .cloning .target => .prepared
  | .makingTarget =>
    match targetScaffold delivery.request.targetStack with
    | none => .raised (noScaffold delivery.request.targetStack)
    | some files => nextFile files
  | .makingRoomFor path content rest => .writing path content rest
  | .writing _ _ rest => nextFile rest
  | .prepared => .prepared
  | .raised exc => .raised exc

/-- The call to the file system or to `git` that comes next. -/
def preparationCall {α : Type} (cloneFrom : CloneFrom α) (baseDir : String) (delivery : Delivery)
    (fs : FileSystem) (answer : α) : Preparing → Option (FsResult Unit)
  | .makingRoom checkout =>
    some (fs.makedirsPath (dirname (checkoutPath baseDir delivery.runId checkout)))
  | .cloning .source =>
    some (cloneFrom answer fs delivery.request.sourceRepoUrl delivery.sourceBranch?
      (checkoutPath baseDir delivery.runId .source))
  | .cloning .target =>
    some (cloneFrom answer fs (delivery.targetRepoUrl?.getD "") none
      (checkoutPath baseDir delivery.runId .target))
  | .makingTarget => some (fs.makedirsPath (checkoutPath baseDir delivery.runId .target))
  | .makingRoomFor path _ _ =>
    some (fs.makedirsPath
      (dirname (joinRelative (checkoutPath baseDir delivery.runId .target) path)))
  | .writing path content _ =>
    some (openAndWrite fs (joinRelative (checkoutPath baseDir delivery.runId .target) path) content)
  | .prepared | .raised _ => none

/-- One turn: the next call, and where it leads. -/
def prepareTurn {α : Type} (cloneFrom : CloneFrom α) (baseDir : String) (delivery : Delivery)
    (fs : FileSystem) (answer : α) (place : Preparing) : Option (FileSystem × Preparing) :=
  (preparationCall cloneFrom baseDir delivery fs answer place).map fun result =>
    match result with
    | (fs', .ok ()) => (fs', nextPlace delivery place)
    | (fs', .error exc) => (fs', .raised exc)

/-- The deliveries to all workers, on one work directory. The surroundings may hand back any
tree. -/
def preparers {α : Type} (cloneFrom : CloneFrom α) (baseDir : String)
    (deliveries : List Delivery) : SharedClients FileSystem Preparing α FileSystem where
  act k fs place answer :=
    deliveries[k]?.bind fun delivery => prepareTurn cloneFrom baseDir delivery fs answer place
  meanwhile _ fs := some fs

abbrev PreparingState := SharedClients.State FileSystem Preparing

def beforePreparing (fs : FileSystem) : PreparingState := ⟨fs, fun _ => .makingRoom .source⟩

/-- A turn in a run is a call of the delivery with that number. -/
theorem call_of_act {α : Type} {cloneFrom : CloneFrom α} {baseDir : String}
    {deliveries : List Delivery} {k : ℕ} {fs fs' : FileSystem} {answer : α}
    {place place' : Preparing}
    (h : (preparers cloneFrom baseDir deliveries).act k fs place answer = some (fs', place')) :
    ∃ delivery, deliveries[k]? = some delivery ∧
      ((preparationCall cloneFrom baseDir delivery fs answer place = some (fs', .ok ()) ∧
          place' = nextPlace delivery place) ∨
        ∃ exc, preparationCall cloneFrom baseDir delivery fs answer place =
          some (fs', .error exc) ∧ place' = .raised exc) := by
  obtain ⟨delivery, hk, hturn⟩ := Option.bind_eq_some_iff.mp h
  obtain ⟨⟨fs₁, outcome⟩, hcall, heq⟩ := Option.map_eq_some_iff.mp hturn
  cases outcome with
  | ok =>
    cases heq
    exact ⟨delivery, hk, Or.inl ⟨hcall, rfl⟩⟩
  | error exc =>
    cases heq
    exact ⟨delivery, hk, Or.inr ⟨exc, hcall, rfl⟩⟩

end StackMigrate
