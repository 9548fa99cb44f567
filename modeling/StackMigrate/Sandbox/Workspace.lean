import StackMigrate.Sandbox.FileSystem
import StackMigrate.State.Tasks

/-!
# Applying generated files to the workspace

Diff paths come from an LLM and are untrusted. `_resolve_safe_path` is the guard
that both batch operations pass every path through before they touch the tree.
-/

namespace StackMigrate

/-- `os.path.join(path, rest)` for a relative `rest`. -/
def joinPath (path rest : String) : String :=
  if endsWith path "/" then path ++ rest else path ++ "/" ++ rest

/-- `_resolve_safe_path`. -/
def resolveSafePath (fs : FileSystem) (workspaceRoot relativePath : String) :
    Except PyException Location :=
  if startsWith relativePath "/" then
    .error (.unsafeDiffPathError
      ("Diff path must be relative, got absolute path: " ++ reprStr relativePath))
  else if '\x00' ∈ relativePath.toList then
    .error (.valueError "embedded null byte")
  else
    let workspaceRootReal := (fs.realpath workspaceRoot).toPath
    let candidate := fs.realpath (joinPath workspaceRootReal relativePath)
    if candidate.toPath ≠ workspaceRootReal ∧
        ¬ startsWith candidate.toPath (workspaceRootReal ++ "/") then
      .error (.unsafeDiffPathError
        ("Diff path " ++ reprStr relativePath ++ " resolves outside the workspace root (" ++
          workspaceRoot ++ ")"))
    else .ok candidate

/-- The deleting loop of `remove_paths`, over paths that are already resolved. -/
def removeResolved : FileSystem → List (String × Location) → FsResult (List String)
  | fs, [] => (fs, .ok [])
  | fs, (rel, full) :: rest =>
    if fs.isFile full ∨ fs.isLink full then
      match fs.remove full with
      | (fs', .error e) => (fs', .error e)
      | (fs', .ok ()) =>
        match removeResolved fs' rest with
        | (fs'', .error e) => (fs'', .error e)
        | (fs'', .ok removed) => (fs'', .ok (rel :: removed))
    else removeResolved fs rest

/-- `remove_paths`: all paths are resolved before anything is deleted. -/
def removePaths (fs : FileSystem) (workspaceRoot : String) (paths : List String) :
    FsResult (List String) :=
  match paths.mapM fun p => (resolveSafePath fs workspaceRoot p).map (p, ·) with
  | .error e => (fs, .error e)
  | .ok resolved => removeResolved fs resolved

/-- The writing loop of `apply_diffs`. -/
def writeResolved : FileSystem → List (Location × FileDiff) → FsResult (List String)
  | fs, [] => (fs, .ok [])
  | fs, (fullPath, diff) :: rest =>
    match fs.makedirs fullPath.dropLast with
    | (fs₁, .error e) => (fs₁, .error e)
    | (fs₁, .ok ()) =>
      match fs₁.writeFile fullPath diff.content with
      | (fs₂, .error e) => (fs₂, .error e)
      | (fs₂, .ok ()) =>
        match writeResolved fs₂ rest with
        | (fs₃, .error e) => (fs₃, .error e)
        | (fs₃, .ok written) => (fs₃, .ok (diff.path :: written))

/-- `apply_diffs`. The workspace root itself is created first. -/
def applyDiffs (fs : FileSystem) (workspaceRoot : String) (diffs : List FileDiff) :
    FsResult (List String) :=
  match fs.makedirsPath workspaceRoot with
  | (fs₁, .error e) => (fs₁, .error e)
  | (fs₁, .ok ()) =>
    match diffs.mapM fun diff =>
      (resolveSafePath fs₁ workspaceRoot diff.path).map (·, diff) with
    | .error e => (fs₁, .error e)
    | .ok resolved => writeResolved fs₁ resolved

end StackMigrate
