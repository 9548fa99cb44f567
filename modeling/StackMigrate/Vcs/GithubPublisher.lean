import StackMigrate.Core.Text
import StackMigrate.Graph.Collaborators
import StackMigrate.Library.SharedClients
import StackMigrate.Vcs.Repository

/-!
# Publishing through GitHub

`GitHubPRPublisher.publish` is a sequence of API calls, any of which may fail, also after
GitHub has done what it was asked for. Several publications and everybody else use the same
repositories at the same time.
-/

namespace StackMigrate

open SharedClients (Weather)

/-- GitHub, by the full names of the repositories. -/
abbrev GitHub := String → Option Repository

inductive PublishError
  | unpublishablePathError (message : String)
  | runtimeError (message : String)
  /-- Raised by the client library; known only by its `repr`. -/
  | api (repr : String)
  deriving DecidableEq, Repr

/-- How far one call of `publish` has come, with its local variables. -/
inductive Publishing
  | validating
  | gettingRepo
  | gettingRef
  | gettingCommit (base : Sha)
  | creatingTree (base baseTree : Sha)
  | creatingCommit (base tree : Sha)
  | creatingRef (commit : Sha)
  | creatingPull (commit : Sha)
  | returned (pr : PublishedPR)
  | raised (error : PublishError)
  deriving DecidableEq, Repr

/-- What comes of one API call, besides what it does to the repository. -/
structure ApiAnswer where
  weather : Weather := .fair
  /-- The hash of the object that is created. -/
  sha : Sha := ""
  htmlUrl : String := ""
  /-- The exception, if it comes to that. -/
  exc : String := ""

/-- `GitHubPRPublisher(token)`: an empty token counts as none. -/
def publisherToken (token githubToken : Option String) : Option String :=
  (token.filter (· ≠ "")).or (githubToken.filter (· ≠ ""))

/-- The first path that must not be published, with the reason. -/
def firstProblem [UnicodeData] (files : List FileDiff) : Option (String × String) :=
  files.findSome? fun f => (publishablePathProblem f.path).map fun problem => (f.path, problem)

def treeElements (files : List FileDiff) : List InputGitTreeElement :=
  files.map fun f => ⟨f.path, "100644", "blob", f.content⟩

namespace PublishCall

/-- The repository, when it is given by a name. -/
def repoName? (call : PublishCall) : Option String :=
  match call.repoFullName with
  | .str name => some name
  | _ => none

def baseRef (call : PublishCall) : String := "heads/" ++ call.baseBranch

def newRef (call : PublishCall) : String := "refs/heads/" ++ call.branchName

end PublishCall

/-- One API call: what it does to the repository of the call, and how `publish` goes on. -/
def apiCall (github : GitHub) (repoName? : Option String) (answer : ApiAnswer)
    (op : Repository → Option (Repository × Publishing)) : GitHub × Publishing :=
  match repoName? with
  | none => (github, .raised (.api answer.exc))
  | some name =>
    match (github name).bind op, answer.weather with
    | none, _ | _, .requestLost => (github, .raised (.api answer.exc))
    | some (r, next), .fair => (Function.update github name (some r), next)
    | some (r, _), .answerLost =>
      (Function.update github name (some r), .raised (.api answer.exc))

/-- The API call that `publish` makes next, and where it goes on with the answer. -/
def nextRequest (call : PublishCall) (answer : ApiAnswer) (r : Repository) :
    Publishing → Option (Repository × Publishing)
  | .gettingRepo => some (r, .gettingRef)
  | .gettingRef => (r.getGitRef call.baseRef).map fun sha => (r, .gettingCommit sha)
  | .gettingCommit base => (r.getGitCommit base).map fun c => (r, .creatingTree base c.tree)
  | .creatingTree base baseTree =>
    (r.createGitTree (treeElements call.files) baseTree answer.sha).map fun r =>
      (r, .creatingCommit base answer.sha)
  | .creatingCommit base tree =>
    (r.createGitCommit ⟨call.commitMessage, tree, [base]⟩ answer.sha).map fun r =>
      (r, .creatingRef answer.sha)
  | .creatingRef commit =>
    (r.createGitRef call.newRef commit).map fun r => (r, .creatingPull commit)
  | .creatingPull commit =>
    (r.createPull ⟨call.prTitle, call.prBody, call.branchName, call.baseBranch,
      answer.htmlUrl⟩).map fun r => (r, .returned ⟨answer.htmlUrl, call.branchName, commit⟩)
  | .validating | .returned _ | .raised _ => none

/-- One turn of `publish`, up to the answer of the next API call. -/
def publishTurn [UnicodeData] (token : Option String) (call : PublishCall) (github : GitHub)
    (answer : ApiAnswer) (place : Publishing) : Option (GitHub × Publishing) :=
  match place with
  | .validating =>
    match firstProblem call.files with
    | some (path, problem) =>
      some (github, .raised (.unpublishablePathError
        ("Refusing to publish '" ++ path ++ "': " ++ problem)))
    | none => some (github, .gettingRepo)
  | .returned _ | .raised _ => none
  | _ =>
    if token.isNone ∧ place = .gettingRepo then
      some (github, .raised (.runtimeError
        "GITHUB_TOKEN is not set and no token was passed to GitHubPRPublisher."))
    else
      some (apiCall github call.repoName? answer fun r => nextRequest call answer r place)

/-- Any number of publications with one token, and what everybody else does meanwhile. -/
def publishers [UnicodeData] (token githubToken : Option String) (calls : List PublishCall) :
    SharedClients GitHub Publishing ApiAnswer (String × Repository.Change) where
  act k github place answer :=
    calls[k]?.bind fun call =>
      publishTurn (publisherToken token githubToken) call github answer place
  meanwhile github change :=
    (github change.1).bind fun r =>
      (r.change change.2).map fun r => Function.update github change.1 (some r)

/-- GitHub, and how far each publication has come. -/
abbrev PublishingState := SharedClients.State GitHub Publishing

/-- A turn of one publication, or something done by anybody else. -/
abbrev PublishingMove := SharedClients.Move ApiAnswer (String × Repository.Change)

/-- Nobody has begun. -/
def beforePublishing (github : GitHub) : PublishingState := ⟨github, fun _ => .validating⟩

/-! ### Inversion -/

theorem firstProblem_eq_none [UnicodeData] {files : List FileDiff} :
    firstProblem files = none ↔ ∀ f ∈ files, publishablePathProblem f.path = none := by
  simp [firstProblem, List.findSome?_eq_none_iff]

/-- What a publication does to a repository from its place, if anything. -/
inductive Deed (call : PublishCall) (r : Repository) : Publishing → Repository → Prop
  | read {place} : Deed call r place r
  | stored {place sha o r'} (hadd : r.addObject sha o = some r') : Deed call r place r'
  | branched {sha r'} (hcreate : r.createGitRef call.newRef sha = some r') :
      Deed call r (.creatingRef sha) r'
  | opened {sha pull r'} (hhead : pull.head = call.branchName) (hbase : pull.base = call.baseBranch)
      (hcreate : r.createPull pull = some r') : Deed call r (.creatingPull sha) r'

/-- An API call that does something does it to one repository, and goes on from there unless
the answer is lost. -/
inductive ApiCalled (github : GitHub) (repoName? : Option String)
    (op : Repository → Option (Repository × Publishing)) : GitHub → Publishing → Prop
  | failed (exc : String) : ApiCalled github repoName? op github (.raised (.api exc))
  | done {name r r' next} (hname : repoName? = some name) (hr : github name = some r)
      (hop : op r = some (r', next)) :
      ApiCalled github repoName? op (Function.update github name (some r')) next
  | lost {name r r' next} (exc : String) (hname : repoName? = some name)
      (hr : github name = some r) (hop : op r = some (r', next)) :
      ApiCalled github repoName? op (Function.update github name (some r')) (.raised (.api exc))

theorem apiCalled {github github' : GitHub} {repoName? : Option String} {answer : ApiAnswer}
    {op : Repository → Option (Repository × Publishing)} {place : Publishing}
    (h : apiCall github repoName? answer op = (github', place)) :
    ApiCalled github repoName? op github' place := by
  unfold apiCall at h
  split at h
  · cases h
    exact .failed _
  · next name =>
    generalize hdone : (github name).bind op = done at h
    split at h
    · cases h
      exact .failed _
    · cases h
      exact .failed _
    · next r' next hweather =>
      cases h
      obtain ⟨r, hr, hop⟩ := Option.bind_eq_some_iff.mp hdone
      exact .done rfl hr hop
    · next r' next hweather =>
      cases h
      obtain ⟨r, hr, hop⟩ := Option.bind_eq_some_iff.mp hdone
      exact .lost _ rfl hr hop

/-- The ways a turn of `publish` is taken. -/
inductive PublishTurn [UnicodeData] (call : PublishCall) (github : GitHub) (answer : ApiAnswer) :
    Publishing → GitHub → Publishing → Prop
  | refused (message : String) (hproblem : firstProblem call.files ≠ none) :
      PublishTurn call github answer .validating github
        (.raised (.unpublishablePathError message))
  | validated (hclean : firstProblem call.files = none) :
      PublishTurn call github answer .validating github .gettingRepo
  | noToken (message : String) :
      PublishTurn call github answer .gettingRepo github (.raised (.runtimeError message))
  | api {place github' place'} (hat : place ≠ .validating)
      (hgoing : ∀ error, place ≠ .raised error)
      (hcall : ApiCalled github call.repoName? (fun r => nextRequest call answer r place)
        github' place') :
      PublishTurn call github answer place github' place'

theorem publishTurn_taken [UnicodeData] {token : Option String} {call : PublishCall}
    {github github' : GitHub} {answer : ApiAnswer} {place place' : Publishing}
    (h : publishTurn token call github answer place = some (github', place')) :
    PublishTurn call github answer place github' place' := by
  unfold publishTurn at h
  split at h
  · split at h
    · next hproblem =>
      cases h
      exact .refused _ (by simp [hproblem])
    · next hclean =>
      cases h
      exact .validated hclean
  · cases h
  · cases h
  · next hat _ hgoing =>
    split_ifs at h with htoken
    · cases h
      rw [htoken.2]
      exact .noToken _
    · exact .api hat hgoing (apiCalled (Option.some.inj h))

theorem deed_of_nextRequest {call : PublishCall} {answer : ApiAnswer} {r r' : Repository}
    {place place' : Publishing} (h : nextRequest call answer r place = some (r', place')) :
    Deed call r place r' := by
  cases place with
  | gettingRepo =>
    cases h
    exact .read
  | gettingRef | gettingCommit =>
    obtain ⟨_, -, heq⟩ := Option.map_eq_some_iff.mp h
    cases heq
    exact .read
  | creatingTree =>
    obtain ⟨r₁, hcreate, heq⟩ := Option.map_eq_some_iff.mp h
    cases heq
    obtain ⟨base, -, -, hadd⟩ := Repository.createGitTree_spec hcreate
    exact .stored hadd
  | creatingCommit =>
    obtain ⟨r₁, hcreate, heq⟩ := Option.map_eq_some_iff.mp h
    cases heq
    exact .stored hcreate
  | creatingRef =>
    obtain ⟨r₁, hcreate, heq⟩ := Option.map_eq_some_iff.mp h
    cases heq
    exact .branched hcreate
  | creatingPull =>
    obtain ⟨r₁, hcreate, heq⟩ := Option.map_eq_some_iff.mp h
    cases heq
    exact .opened rfl rfl hcreate
  | validating | returned | raised => cases h

/-- A turn leaves GitHub as it is, or does one deed to the repository of its call. -/
theorem PublishTurn.deed [UnicodeData] {call : PublishCall} {github github' : GitHub}
    {answer : ApiAnswer} {place place' : Publishing}
    (h : PublishTurn call github answer place github' place') :
    github' = github ∨ ∃ name r r', call.repoName? = some name ∧ github name = some r ∧
      Deed call r place r' ∧ github' = Function.update github name (some r') := by
  cases h with
  | refused | validated | noToken => exact Or.inl rfl
  | api _ _ hcall =>
    cases hcall with
    | failed => exact Or.inl rfl
    | done hname hr hop => exact Or.inr ⟨_, _, _, hname, hr, deed_of_nextRequest hop, rfl⟩
    | lost _ hname hr hop => exact Or.inr ⟨_, _, _, hname, hr, deed_of_nextRequest hop, rfl⟩

end StackMigrate
