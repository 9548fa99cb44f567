import StackMigrate.Graph.Drafts
import StackMigrate.Vcs.GithubPublisher

/-!
# What arrives in the repository

Any number of publications run at once, each of their API calls may fail, and everybody else
goes on working in the same repositories. A pull request that is opened all the same proposes
exactly the files of its call on top of a commit that the base branch pointed at; nothing that
exists is moved; and the branch that a publication creates is what keeps others of the same
branch from opening a second one.
-/

namespace StackMigrate

open Repository

/-! ### Objects that stay -/

/-- The repository of the call holds the object. -/
def Holds (call : PublishCall) (github : GitHub) (sha : Sha) (o : GitObject) : Prop :=
  ∃ name r, call.repoName? = some name ∧ github name = some r ∧ r.objects sha = some o

/-- Repositories stay, and so do all objects in them. -/
def Grows (github github' : GitHub) : Prop :=
  ∀ ⦃name r⦄, github name = some r →
    ∃ r', github' name = some r' ∧ ObjectStore.Extends r.objects r'.objects

section Objects

variable {call : PublishCall} {github github' : GitHub} {name : String} {r r' : Repository}
  {sha : Sha} {o : GitObject} {place place' : Publishing}

theorem Holds.mono (h : Holds call github sha o) (hgrows : Grows github github') :
    Holds call github' sha o := by
  obtain ⟨name, r, hname, hr, ho⟩ := h
  obtain ⟨r', hr', hextends⟩ := hgrows hr
  exact ⟨name, r', hname, hr', hextends ho⟩

theorem holds_update (hname : call.repoName? = some name) (ho : r.objects sha = some o) :
    Holds call (Function.update github name (some r)) sha o :=
  ⟨name, r, hname, Function.update_self .., ho⟩

theorem Grows.refl (github : GitHub) : Grows github github :=
  fun _ r hr => ⟨r, hr, ObjectStore.Extends.refl _⟩

theorem grows_update (hr : github name = some r)
    (hextends : ObjectStore.Extends r.objects r'.objects) :
    Grows github (Function.update github name (some r')) := by
  intro name' r₁ hr₁
  by_cases hname : name' = name
  · subst hname
    cases hr.symm.trans hr₁
    exact ⟨r', Function.update_self .., hextends⟩
  · exact ⟨r₁, by rwa [Function.update_of_ne hname], ObjectStore.Extends.refl _⟩

theorem Deed.extends (h : Deed call r place r') : ObjectStore.Extends r.objects r'.objects := by
  cases h with
  | read => exact ObjectStore.Extends.refl _
  | stored hadd => exact (addObject_spec hadd).1
  | branched hcreate =>
    obtain ⟨-, -, rfl⟩ := createGitRef_spec hcreate
    exact ObjectStore.Extends.refl _
  | opened _ _ hcreate =>
    obtain ⟨-, -, rfl⟩ := createPull_spec hcreate
    exact ObjectStore.Extends.refl _

theorem PublishTurn.grows [UnicodeData] {answer : ApiAnswer}
    (h : PublishTurn call github answer place github' place') : Grows github github' := by
  rcases h.deed with rfl | ⟨name, r, r', -, hr, hdeed, rfl⟩
  · exact Grows.refl _
  · exact grows_update hr hdeed.extends

end Objects

/-! ### Where a publication stands -/

/-- No file has a path that must not be published. -/
def Publishable [UnicodeData] (files : List FileDiff) : Prop :=
  ∀ f ∈ files, publishablePathProblem f.path = none

/-- `base` was the head of the base branch in one of the known states of GitHub. -/
def HeadIn (Known : GitHub → Prop) (call : PublishCall) (base : Sha) : Prop :=
  ∃ github name r, Known github ∧ call.repoName? = some name ∧ github name = some r ∧
    r.getGitRef call.baseRef = some base

/-- A commit that was a head, and its tree. -/
structure Based (Known : GitHub → Prop) (call : PublishCall) (github : GitHub)
    (base baseTree : Sha) : Prop where
  head : HeadIn Known call base
  commit : ∃ c, c.tree = baseTree ∧ Holds call github base (.commit c)

/-- A tree with the files of the call on top of that commit. -/
structure Prepared (Known : GitHub → Prop) (call : PublishCall) (github : GitHub)
    (base tree : Sha) : Prop where
  apart : (treeElements call.files).Pairwise fun x y => ¬ Clash x.path y.path
  onTop : ∃ baseTree entries, Based Known call github base baseTree ∧
    Holds call github baseTree (.tree entries) ∧
    Holds call github tree (.tree (overlay entries (treeElements call.files)))

/-- A commit of that tree. -/
def Proposal (Known : GitHub → Prop) (call : PublishCall) (github : GitHub) (sha : Sha) : Prop :=
  ∃ base tree, Prepared Known call github base tree ∧
    Holds call github sha (.commit ⟨call.commitMessage, tree, [base]⟩)

/-- What a publication knows at each of its places. -/
def Stands [UnicodeData] (Known : GitHub → Prop) (call : PublishCall) (github : GitHub) :
    Publishing → Prop
  | .validating => True
  | .gettingRepo | .gettingRef => Publishable call.files
  | .gettingCommit base => Publishable call.files ∧ HeadIn Known call base
  | .creatingTree base baseTree => Publishable call.files ∧ Based Known call github base baseTree
  | .creatingCommit base tree => Publishable call.files ∧ Prepared Known call github base tree
  | .creatingRef commit | .creatingPull commit =>
    Publishable call.files ∧ Proposal Known call github commit
  | .returned pr =>
    Publishable call.files ∧ pr.branchName = call.branchName ∧
      Proposal Known call github pr.commitSha
  | .raised error =>
    (∀ message, error ≠ .unpublishablePathError message) → Publishable call.files

section Stands

variable {Known : GitHub → Prop} {call : PublishCall} {github github' : GitHub} {sha : Sha}

theorem Based.mono {base baseTree : Sha} (h : Based Known call github base baseTree)
    (hgrows : Grows github github') : Based Known call github' base baseTree := by
  obtain ⟨c, htree, hc⟩ := h.commit
  exact ⟨h.head, c, htree, hc.mono hgrows⟩

theorem Prepared.mono {base tree : Sha} (h : Prepared Known call github base tree)
    (hgrows : Grows github github') : Prepared Known call github' base tree := by
  obtain ⟨baseTree, entries, hbased, hentries, htree⟩ := h.onTop
  exact ⟨h.apart, baseTree, entries, hbased.mono hgrows, hentries.mono hgrows, htree.mono hgrows⟩

theorem Proposal.mono (h : Proposal Known call github sha) (hgrows : Grows github github') :
    Proposal Known call github' sha := by
  obtain ⟨base, tree, hprepared, hc⟩ := h
  exact ⟨base, tree, hprepared.mono hgrows, hc.mono hgrows⟩

/-! With a longer run more states are known. -/

variable {Known' : GitHub → Prop}

theorem HeadIn.of_known {base : Sha} (h : HeadIn Known call base)
    (hknown : ∀ g, Known g → Known' g) : HeadIn Known' call base := by
  obtain ⟨g, name, r, hg, hhead⟩ := h
  exact ⟨g, name, r, hknown g hg, hhead⟩

theorem Based.of_known {base baseTree : Sha} (h : Based Known call github base baseTree)
    (hknown : ∀ g, Known g → Known' g) : Based Known' call github base baseTree :=
  ⟨h.head.of_known hknown, h.commit⟩

theorem Prepared.of_known {base tree : Sha} (h : Prepared Known call github base tree)
    (hknown : ∀ g, Known g → Known' g) : Prepared Known' call github base tree := by
  obtain ⟨baseTree, entries, hbased, htrees⟩ := h.onTop
  exact ⟨h.apart, baseTree, entries, hbased.of_known hknown, htrees⟩

theorem Proposal.of_known (h : Proposal Known call github sha) (hknown : ∀ g, Known g → Known' g) :
    Proposal Known' call github sha := by
  obtain ⟨base, tree, hprepared, hc⟩ := h
  exact ⟨base, tree, hprepared.of_known hknown, hc⟩

variable [UnicodeData] {place place' : Publishing} {answer : ApiAnswer}

theorem Stands.of_known (h : Stands Known call github place) (hknown : ∀ g, Known g → Known' g) :
    Stands Known' call github place := by
  cases place with
  | gettingCommit => exact ⟨h.1, h.2.of_known hknown⟩
  | creatingTree => exact ⟨h.1, h.2.of_known hknown⟩
  | creatingCommit => exact ⟨h.1, h.2.of_known hknown⟩
  | creatingRef | creatingPull => exact ⟨h.1, h.2.of_known hknown⟩
  | returned => exact ⟨h.1, h.2.1, h.2.2.of_known hknown⟩
  | validating | gettingRepo | gettingRef | raised => exact h

theorem Stands.mono (h : Stands Known call github place) (hgrows : Grows github github') :
    Stands Known call github' place := by
  cases place with
  | creatingTree => exact ⟨h.1, h.2.mono hgrows⟩
  | creatingCommit => exact ⟨h.1, h.2.mono hgrows⟩
  | creatingRef | creatingPull => exact ⟨h.1, h.2.mono hgrows⟩
  | returned => exact ⟨h.1, h.2.1, h.2.2.mono hgrows⟩
  | _ => exact h

theorem Stands.publishable (h : Stands Known call github place) (hat : place ≠ .validating)
    (hraised : ∀ error, place ≠ .raised error) : Publishable call.files := by
  cases place with
  | validating => exact absurd rfl hat
  | raised error => exact absurd rfl (hraised error)
  | gettingRepo | gettingRef => exact h
  | _ => exact h.1

/-- The answer to an API call is what the next place is about. -/
theorem stands_nextRequest {name : String} {r r' : Repository} (hknown : Known github)
    (hname : call.repoName? = some name) (hr : github name = some r)
    (hs : Stands Known call github place)
    (h : nextRequest call answer r place = some (r', place')) :
    Stands Known call (Function.update github name (some r')) place' := by
  have hgrows : Grows github (Function.update github name (some r')) :=
    grows_update hr (deed_of_nextRequest h).extends
  cases place with
  | gettingRepo =>
    cases h
    exact hs
  | gettingRef =>
    obtain ⟨sha, hsha, heq⟩ := Option.map_eq_some_iff.mp h
    cases heq
    exact ⟨hs, github, name, r, hknown, hname, hr, hsha⟩
  | gettingCommit base =>
    obtain ⟨c, hc, heq⟩ := Option.map_eq_some_iff.mp h
    cases heq
    exact ⟨hs.1, hs.2, c, rfl, holds_update hname (getGitCommit_eq.mp hc)⟩
  | creatingTree base baseTree =>
    obtain ⟨r₁, hcreate, heq⟩ := Option.map_eq_some_iff.mp h
    cases heq
    obtain ⟨entries, hentries, hapart, hadd⟩ := createGitTree_spec hcreate
    obtain ⟨hextends, htree, -, -⟩ := addObject_spec hadd
    refine ⟨hs.1, hapart, baseTree, entries, hs.2.mono hgrows, ?_, holds_update hname htree⟩
    exact holds_update hname (hextends (getGitTree_eq.mp hentries))
  | creatingCommit base tree =>
    obtain ⟨r₁, hcreate, heq⟩ := Option.map_eq_some_iff.mp h
    cases heq
    obtain ⟨-, hc, -, -⟩ := addObject_spec hcreate
    exact ⟨hs.1, base, tree, hs.2.mono hgrows, holds_update hname hc⟩
  | creatingRef sha =>
    obtain ⟨r₁, -, heq⟩ := Option.map_eq_some_iff.mp h
    cases heq
    exact ⟨hs.1, hs.2.mono hgrows⟩
  | creatingPull sha =>
    obtain ⟨r₁, -, heq⟩ := Option.map_eq_some_iff.mp h
    cases heq
    exact ⟨hs.1, rfl, hs.2.mono hgrows⟩
  | validating | returned | raised => cases h

theorem stands_turn (hknown : Known github) (hs : Stands Known call github place)
    (h : PublishTurn call github answer place github' place') :
    Stands Known call github' place' := by
  cases h with
  | refused message => exact fun hno => absurd rfl (hno message)
  | validated hclean => exact firstProblem_eq_none.mp hclean
  | noToken => exact fun _ => hs
  | api hat hgoing hcall =>
    cases hcall with
    | failed => exact fun _ => hs.publishable hat hgoing
    | done hname hr hop => exact stands_nextRequest hknown hname hr hs hop
    | lost => exact fun _ => hs.publishable hat hgoing

end Stands

/-! ### What others do -/

/-- Everybody else leaves one ref of one repository alone. -/
def LeavesRef (name ref : String) (_ : GitHub) (e : String × Change) : Prop :=
  match e.2 with
  | .ref ref' _ => e.1 = name → ref' ≠ ref
  | .object _ _ | .pulls _ => True

instance (name ref : String) (github : GitHub) (e : String × Change) :
    Decidable (LeavesRef name ref github e) :=
  match e with
  | (name', .ref ref' _) => inferInstanceAs (Decidable (name' = name → ref' ≠ ref))
  | (_, .object _ _) | (_, .pulls _) => isTrue trivial

/-! ### A small repository -/

/-- A repository with one commit on its main branch. -/
def demoRepository : Repository where
  objects sha :=
    if sha = "c0" then some (.commit ⟨"first commit", "t0", []⟩)
    else if sha = "t0" then some (.tree [⟨"README.md", "100644", "shop"⟩])
    else none
  refs ref := if ref = "refs/heads/main" then some "c0" else none
  pulls := []

def demoGitHub : GitHub := fun name => if name = "owner/shop" then some demoRepository else none

def callFor (path : String) : PublishCall where
  repoFullName := .str "owner/shop"
  baseBranch := "main"
  branchName := "stackmigrate/run-1"
  commitMessage := "stackmigrate"
  prTitle := "Migrate"
  prBody := ""
  files := [⟨path, "code", true⟩]

/-- One publication from its first line to the last, while somebody else pushes to another
branch. -/
def publishMoves (k : ℕ) : List PublishingMove :=
  [.turn k {}, .turn k {}, .turn k {}, .turn k {},
    .meanwhile ("owner/shop", .ref "refs/heads/feature" (some "c0")),
    .turn k { sha := "t1" }, .turn k { sha := "c1" }, .turn k {}, .turn k { htmlUrl := "pull/1" }]

def Publishing.isReturned : Publishing → Bool
  | returned _ => true
  | _ => false

section Runs

variable [UnicodeData] {token githubToken : Option String} {calls : List PublishCall}
  {allowed : GitHub → String × Change → Prop} {github : GitHub}
  {s : PublishingState}
  {moves : List PublishingMove}

/-- A turn in a run is a turn of the call with that number. -/
theorem publishTurn_of_act {k : ℕ} {github github' : GitHub} {place place' : Publishing}
    {answer : ApiAnswer}
    (h : (publishers token githubToken calls).act k github place answer = some (github', place')) :
    ∃ call, calls[k]? = some call ∧ PublishTurn call github answer place github' place' := by
  obtain ⟨call, hk, hturn⟩ := Option.bind_eq_some_iff.mp h
  exact ⟨call, hk, publishTurn_taken hturn⟩

/-- What everybody else does is done to one repository. -/
theorem change_of_meanwhile {github github' : GitHub} {e : String × Change}
    (h : (publishers token githubToken calls).meanwhile github e = some github') :
    ∃ r r', github e.1 = some r ∧ r.change e.2 = some r' ∧
      github' = Function.update github e.1 (some r') := by
  obtain ⟨r, hr, h⟩ := Option.bind_eq_some_iff.mp h
  obtain ⟨r', hchange, rfl⟩ := Option.map_eq_some_iff.mp h
  exact ⟨r, r', hr, hchange, rfl⟩

theorem outline_publishers (Known : GitHub → Prop) :
    SharedClients.Outline (publishers token githubToken calls) allowed Known Grows
      fun k github place => ∀ call, calls[k]? = some call → Stands Known call github place where
  turn := by
    intro k github place answer github' place' hknown hat hact
    obtain ⟨call, hk, hturn⟩ := publishTurn_of_act hact
    refine ⟨hturn.grows, fun call' hk' => ?_⟩
    cases hk.symm.trans hk'
    exact stands_turn hknown (hat call hk) hturn
  meanwhile := by
    intro github e github' _ hmeanwhile
    obtain ⟨r, r', hr, hchange, rfl⟩ := change_of_meanwhile hmeanwhile
    exact grows_update hr (extends_change hchange)
  stable := fun hgrows hat call hk => (hat call hk).mono hgrows

/-- The states of GitHub that a run has passed through. -/
def Passed (token githubToken : Option String) (calls : List PublishCall)
    (allowed : GitHub → String × Change → Prop) (start : GitHub)
    (moves : List PublishingMove) (github : GitHub) : Prop :=
  ∃ earlier later s, moves = earlier ++ later ∧ s.shared = github ∧
    (publishers token githubToken calls).system.RunWhere (SharedClients.Within allowed)
      (beforePublishing start) earlier s

theorem stands_of_run
    (hrun : (publishers token githubToken calls).system.RunWhere (SharedClients.Within allowed)
      (beforePublishing github) moves s) {k : ℕ} {call : PublishCall} (hk : calls[k]? = some call) :
    Stands (Passed token githubToken calls allowed github moves) call s.shared (s.place k) := by
  refine (outline_publishers _).at_of_run hrun ?_ (fun _ _ _ => trivial) k call hk
  intro earlier later s' hmoves hrun'
  exact ⟨earlier, later, s', hmoves, rfl, hrun'⟩

/-- Repositories are not lost on the way. -/
theorem grows_of_run
    (hrun : (publishers token githubToken calls).system.RunWhere (SharedClients.Within allowed)
      (beforePublishing github) moves s) : Grows github s.shared := by
  refine SharedClients.rely_of_run Grows.refl ?_ ?_ ?_ hrun
  · intro a b c hab hbc name r hr
    obtain ⟨r', hr', hextends⟩ := hab hr
    obtain ⟨r'', hr'', hextends'⟩ := hbc hr'
    exact ⟨r'', hr'', hextends.trans hextends'⟩
  · intro k github place answer github' place' hact
    obtain ⟨call, -, hturn⟩ := publishTurn_of_act hact
    exact hturn.grows
  · intro github e github' _ hmeanwhile
    obtain ⟨r, r', hr, hchange, rfl⟩ := change_of_meanwhile hmeanwhile
    exact grows_update hr (extends_change hchange)

/-! ### What is proposed -/

/-- The commit `sha` puts exactly the files of the call on top of the commit `base`: each file
reads as the call has it, and what does not stand in their way reads as before. -/
structure Proposes (call : PublishCall) (r : Repository) (sha base : Sha) : Prop where
  trees : ∃ baseCommit entries tree after, r.objects base = some (.commit baseCommit) ∧
    r.objects baseCommit.tree = some (.tree entries) ∧
    r.objects sha = some (.commit ⟨call.commitMessage, tree, [base]⟩) ∧
    r.objects tree = some (.tree after) ∧
    (∀ f ∈ call.files, contentAt after f.path = some f.content) ∧
    ∀ path, (∀ f ∈ call.files, ¬ Clash path f.path) → contentAt after path = contentAt entries path

omit [UnicodeData] in
theorem Proposal.proposes {Known : GitHub → Prop} {call : PublishCall} {sha : Sha}
    (h : Proposal Known call github sha) :
    ∃ name r base, call.repoName? = some name ∧ github name = some r ∧ HeadIn Known call base ∧
      Proposes call r sha base := by
  obtain ⟨base, tree, ⟨hapart, baseTree, entries, ⟨hhead, c, rfl, hc⟩, hentries, htree⟩, hsha⟩ := h
  obtain ⟨name, r, hname, hr, hsha⟩ := hsha
  have hread : ∀ {sha o}, Holds call github sha o → r.objects sha = some o := by
    rintro sha o ⟨name', r', hname', hr', ho⟩
    cases hname.symm.trans hname'
    cases hr.symm.trans hr'
    exact ho
  refine ⟨name, r, base, hname, hr, hhead, ⟨c, entries, tree, _, hread hc, hread hentries, hsha,
    hread htree, ?_, ?_⟩⟩
  · intro f hf
    have hmem : (⟨f.path, "100644", "blob", f.content⟩ : InputGitTreeElement) ∈
        treeElements call.files := List.mem_map_of_mem hf
    exact contentAt_overlay_of_mem hapart hmem
  · intro path hclear
    refine contentAt_overlay_of_clear fun x hx => ?_
    obtain ⟨f, hf, rfl⟩ := List.mem_map.mp hx
    exact hclear f hf

omit [UnicodeData] in
theorem repoFullName_of_repoName? {call : PublishCall} {name : String}
    (h : call.repoName? = some name) : call.repoFullName = .str name := by
  unfold PublishCall.repoName? at h
  split at h
  · next heq =>
    cases h
    exact heq
  · cases h

end Runs

section Demo

attribute [local instance] asciiTables

end Demo

section Runs

variable [UnicodeData] {token githubToken : Option String} {calls : List PublishCall}
  {allowed : GitHub → String × Change → Prop} {github : GitHub}
  {s : PublishingState}
  {moves : List PublishingMove}

/-! ### Refs -/

/-- Where a ref is, given where it was before: it is the same, or a publication has created it
for its proposal. -/
def KeptOrCreated (Known : GitHub → Prop) (calls : List PublishCall) (name ref : String)
    (before : Option Sha) (github : GitHub) : Prop :=
  ∃ r, github name = some r ∧ (r.refs ref = before ∨ (before = none ∧
    ∃ call sha, call ∈ calls ∧ call.repoName? = some name ∧ ref = call.newRef ∧
      r.refs ref = some sha ∧ Publishable call.files ∧ Proposal Known call github sha))

section Refs

variable {Known Known' : GitHub → Prop} {name ref : String} {before : Option Sha} {github' : GitHub}

theorem KeptOrCreated.of_known (h : KeptOrCreated Known calls name ref before github)
    (hknown : ∀ g, Known g → Known' g) : KeptOrCreated Known' calls name ref before github := by
  obtain ⟨r, hr, hkept⟩ := h
  refine ⟨r, hr, hkept.imp_right ?_⟩
  rintro ⟨hbefore, call, sha, hcall, hname, href, hsha, hclean, hproposal⟩
  exact ⟨hbefore, call, sha, hcall, hname, href, hsha, hclean, hproposal.of_known hknown⟩

/-- Whatever leaves the ref of the repository alone. -/
theorem KeptOrCreated.of_same (h : KeptOrCreated Known calls name ref before github)
    (hgrows : Grows github github')
    (hsame : ∀ r r', github name = some r → github' name = some r' → r'.refs ref = r.refs ref) :
    KeptOrCreated Known calls name ref before github' := by
  obtain ⟨r, hr, hkept⟩ := h
  obtain ⟨r', hr', -⟩ := hgrows hr
  refine ⟨r', hr', ?_⟩
  rw [hsame r r' hr hr']
  refine hkept.imp_right ?_
  rintro ⟨hbefore, call, sha, hcall, hname, href, hsha, hclean, hproposal⟩
  exact ⟨hbefore, call, sha, hcall, hname, href, hsha, hclean, hproposal.mono hgrows⟩

omit [UnicodeData] in
theorem same_of_update {name' : String} {r₁ r₁' : Repository} (hr₁ : github name' = some r₁)
    (hsame : name = name' → r₁'.refs ref = r₁.refs ref) :
    ∀ r r', github name = some r → Function.update github name' (some r₁') name = some r' →
      r'.refs ref = r.refs ref := by
  intro r r' hr hr'
  by_cases heq : name = name'
  · subst heq
    cases hr₁.symm.trans hr
    rw [Function.update_self] at hr'
    cases hr'
    exact hsame rfl
  · rw [Function.update_of_ne heq, hr] at hr'
    cases hr'
    rfl

/-- A publication creates the ref of its call for its proposal, where the ref is free. -/
theorem KeptOrCreated.turn {k : ℕ} {call : PublishCall} {answer : ApiAnswer}
    {place place' : Publishing} (h : KeptOrCreated Known calls name ref before github)
    (hk : calls[k]? = some call) (hs : Stands Known call github place)
    (hturn : PublishTurn call github answer place github' place') :
    KeptOrCreated Known calls name ref before github' := by
  have hgrows := hturn.grows
  rcases hturn.deed with rfl | ⟨name', r₁, r₁', hname', hr₁, hdeed, rfl⟩
  · exact h
  cases hdeed with
  | read => exact h.of_same hgrows (same_of_update hr₁ fun _ => rfl)
  | stored hadd =>
    exact h.of_same hgrows (same_of_update hr₁ fun _ => by rw [(addObject_spec hadd).2.2.1])
  | opened _ _ hcreate =>
    obtain ⟨-, -, rfl⟩ := createPull_spec hcreate
    exact h.of_same hgrows (same_of_update hr₁ fun _ => rfl)
  | @branched sha _ hcreate =>
    obtain ⟨hfree, -, rfl⟩ := createGitRef_spec hcreate
    by_cases hnew : name = name' ∧ ref = call.newRef
    · obtain ⟨rfl, rfl⟩ := hnew
      obtain ⟨r, hr, hkept⟩ := h
      cases hr.symm.trans hr₁
      refine ⟨_, Function.update_self .., Or.inr ⟨?_, call, sha, List.mem_of_getElem? hk, hname',
        rfl, Function.update_self .., hs.1, hs.2.mono hgrows⟩⟩
      rcases hkept with hkept | ⟨hbefore, -⟩
      · exact hkept.symm.trans hfree
      · exact hbefore
    · refine h.of_same hgrows (same_of_update hr₁ fun heq => ?_)
      exact Function.update_of_ne (fun href => hnew ⟨heq, href⟩) _ _

end Refs

theorem keptOrCreated_of_run {name ref : String} {r : Repository} (hr : github name = some r)
    (hrun : (publishers token githubToken calls).system.RunWhere
      (SharedClients.Within (LeavesRef name ref)) (beforePublishing github) moves s) :
    KeptOrCreated (Passed token githubToken calls (LeavesRef name ref) github moves) calls name ref
      (r.refs ref) s.shared := by
  induction hrun with
  | refl => exact ⟨r, hr, Or.inl rfl⟩
  | @snoc moves s m s' hrun hstep hok ih =>
    have hlonger : ∀ g, Passed token githubToken calls (LeavesRef name ref) github moves g →
        Passed token githubToken calls (LeavesRef name ref) github (moves ++ [m]) g := by
      rintro g ⟨earlier, later, t, hmoves, ht, hrun'⟩
      exact ⟨earlier, later ++ [m], t, by rw [hmoves, List.append_assoc], ht, hrun'⟩
    have ih := ih.of_known hlonger
    cases SharedClients.moved_of_step hstep with
    | turn hact =>
      obtain ⟨call, hk, hturn⟩ := publishTurn_of_act hact
      exact ih.turn hk ((stands_of_run hrun hk).of_known hlonger) hturn
    | meanwhile hmeanwhile =>
      obtain ⟨r₁, r₁', hr₁, hchange, rfl⟩ := change_of_meanwhile hmeanwhile
      refine ih.of_same (grows_update hr₁ (extends_change hchange)) (same_of_update hr₁ ?_)
      refine fun heq => refs_change hchange fun sha hsha => ?_
      simp only [SharedClients.Within, LeavesRef, hsha] at hok
      exact hok heq.symm rfl

/-- Publications move no ref: if nobody else touches it, a ref that exists stays where it is, and
one that is new is the branch of a call, at a commit that proposes the files of the call. -/
theorem publishing_moves_no_ref {name ref : String} {r : Repository} (hr : github name = some r)
    (hrun : (publishers token githubToken calls).system.RunWhere
      (SharedClients.Within (LeavesRef name ref)) (beforePublishing github) moves s) :
    ∃ r', s.shared name = some r' ∧ (∀ sha, r.refs ref = some sha → r'.refs ref = some sha) ∧
      ∀ sha, r.refs ref = none → r'.refs ref = some sha →
        ∃ call ∈ calls, call.repoFullName = .str name ∧ ref = "refs/heads/" ++ call.branchName ∧
          (∀ f ∈ call.files, publishablePathProblem f.path = none) ∧
          ∃ base, HeadIn (Passed token githubToken calls (LeavesRef name ref) github moves) call
            base ∧ Proposes call r' sha base := by
  obtain ⟨r', hr', hkept⟩ := keptOrCreated_of_run hr hrun
  refine ⟨r', hr', ?_, ?_⟩
  · intro sha hsha
    rcases hkept with hkept | ⟨hnone, -⟩
    · rw [hkept, hsha]
    · rw [hnone] at hsha
      cases hsha
  · intro sha hnone hsha
    rcases hkept with hkept | ⟨-, call, sha', hcall, hname, href, hsha', hclean, hproposal⟩
    · rw [hkept, hnone] at hsha
      cases hsha
    · cases hsha'.symm.trans hsha
      obtain ⟨name', r₁, base, hname', hr₁, hhead, hproposes⟩ := hproposal.proposes
      cases hname.symm.trans hname'
      cases hr'.symm.trans hr₁
      exact ⟨call, hcall, repoFullName_of_repoName? hname, href, hclean, base, hhead, hproposes⟩

end Runs

section Demo

attribute [local instance] asciiTables

/-- Two publications of one branch, whose API calls alternate. -/
def racingMoves : List PublishingMove :=
  (publishMoves 0).flatMap fun
    | .turn _ answer => [.turn 0 answer, .turn 1 answer]
    | .meanwhile e => [.meanwhile e]

theorem publishing_moves_no_ref_racing :
    ∃ (s : PublishingState) (r : Repository), s.place 0 = .creatingPull "c1" ∧ s.shared "owner/shop" = some r ∧
      r.refs "refs/heads/main" = some "c0" := by
  have hexec : ((publishers none (some "token") [callFor "a.py", callFor "a.py"]).system.exec
      (SharedClients.Within (LeavesRef "owner/shop" "refs/heads/main"))
      (beforePublishing demoGitHub) (racingMoves.take 15)).any
        (fun s => decide (s.place 0 = .creatingPull "c1")) = true := by decide +kernel
  obtain ⟨s, hrun, hplace⟩ := DrivenSystem.exists_runWhere_of_exec hexec
  have hr : demoGitHub "owner/shop" = some demoRepository := rfl
  obtain ⟨r, hr', hkept, -⟩ := publishing_moves_no_ref hr hrun
  exact ⟨s, r, of_decide_eq_true hplace, hr', hkept "c0" rfl⟩

end Demo

section Runs

variable [UnicodeData] {token githubToken : Option String} {calls : List PublishCall}
  {allowed : GitHub → String × Change → Prop} {github : GitHub}
  {s : PublishingState}
  {moves : List PublishingMove}

/-! ### One pull request for a branch -/

/-- The pull requests from a branch. -/
def pullsFrom (branch : String) (github : GitHub) (name : String) : ℕ :=
  match github name with
  | some r => r.pulls.countP fun pull => pull.head = branch
  | none => 0

/-- Everybody else neither deletes the branch nor opens a pull request from it. -/
def LeavesBranch (name branch : String) (github : GitHub) (e : String × Change) : Prop :=
  match e.2 with
  | .ref ref sha => e.1 = name → ref = "refs/heads/" ++ branch → sha ≠ none
  | .pulls pulls => e.1 = name →
      pulls.countP (fun pull => pull.head = branch) ≤ pullsFrom branch github name
  | .object _ _ => True

instance (name branch : String) (github : GitHub) (e : String × Change) :
    Decidable (LeavesBranch name branch github e) :=
  match e with
  | (name', .ref ref sha) =>
    inferInstanceAs (Decidable (name' = name → ref = "refs/heads/" ++ branch → sha ≠ none))
  | (name', .pulls pulls) => inferInstanceAs (Decidable (name' = name →
      pulls.countP (fun pull => pull.head = branch) ≤ pullsFrom branch github name))
  | (_, .object _ _) => isTrue trivial

/-- A publication that has created the branch and not opened its pull request. -/
def createdBranch (calls : List PublishCall) (name branch : String) (k : ℕ) :
    Publishing → Option Unit
  | .creatingPull _ =>
    if calls[k]?.any fun call => call.repoName? = some name ∧ call.branchName = branch then some ()
    else none
  | _ => none

/-- The branch exists. -/
def BranchExists (name branch : String) (github : GitHub) (_ : Unit) : Prop :=
  ∃ r, github name = some r ∧ (r.refs ("refs/heads/" ++ branch)).isSome

omit [UnicodeData] in
theorem Deed.refs_kept {call : PublishCall} {r r' : Repository} {place : Publishing}
    (h : Deed call r place r') {ref : String} {sha : Sha} (hsha : r.refs ref = some sha) :
    r'.refs ref = some sha := by
  cases h with
  | read => exact hsha
  | stored hadd => rw [(addObject_spec hadd).2.2.1, hsha]
  | branched hcreate =>
    obtain ⟨hfree, -, rfl⟩ := createGitRef_spec hcreate
    have hne : ref ≠ call.newRef := by
      rintro rfl
      rw [hfree] at hsha
      cases hsha
    exact (Function.update_of_ne hne _ _).trans hsha
  | opened _ _ hcreate =>
    obtain ⟨-, -, rfl⟩ := createPull_spec hcreate
    exact hsha

omit [UnicodeData] in
/-- The branch has just been created, where there was none. -/
theorem created_of_creatingPull {call : PublishCall} {answer : ApiAnswer} {r r' : Repository}
    {place : Publishing} {sha : Sha}
    (h : nextRequest call answer r place = some (r', .creatingPull sha)) :
    r.refs call.newRef = none ∧ r'.refs call.newRef = some sha := by
  cases place with
  | creatingRef commit =>
    obtain ⟨r₁, hcreate, heq⟩ := Option.map_eq_some_iff.mp h
    cases heq
    obtain ⟨hfree, -, rfl⟩ := createGitRef_spec hcreate
    exact ⟨hfree, Function.update_self ..⟩
  | gettingRepo => cases h
  | validating | returned | raised => cases h
  | _ =>
    obtain ⟨_, -, heq⟩ := Option.map_eq_some_iff.mp h
    cases heq

/-- After the last call there is none. -/
theorem ended_of_creatingPull {call : PublishCall} {github github' : GitHub} {answer : ApiAnswer}
    {place' : Publishing} {sha : Sha}
    (h : PublishTurn call github answer (.creatingPull sha) github' place') (sha' : Sha) :
    place' ≠ .creatingPull sha' := by
  rintro rfl
  cases h with
  | api _ _ hcall =>
    cases hcall with
    | done _ _ hop =>
      obtain ⟨_, -, heq⟩ := Option.map_eq_some_iff.mp hop
      cases heq

omit [UnicodeData] in
theorem createdBranch_eq_some {name branch : String} {k : ℕ} {place : Publishing} :
    createdBranch calls name branch k place = some () ↔ ∃ sha call, place = .creatingPull sha ∧
      calls[k]? = some call ∧ call.repoName? = some name ∧ call.branchName = branch := by
  unfold createdBranch
  cases place <;> simp [Option.any_eq_true]

theorem takesFree_publishers (name branch : String) :
    SharedClients.TakesFree (publishers token githubToken calls) (LeavesBranch name branch)
      (fun _ => True) (createdBranch calls name branch) (BranchExists name branch) where
  turn := by
    intro k github place answer github' place' _ hact t
    obtain ⟨call, hk, hturn⟩ := publishTurn_of_act hact
    refine ⟨?_, ?_⟩
    · rintro ⟨r, hr, hexists⟩
      obtain ⟨sha, hsha⟩ := Option.isSome_iff_exists.mp hexists
      rcases hturn.deed with rfl | ⟨name', r₁, r₁', -, hr₁, hdeed, rfl⟩
      · exact ⟨r, hr, hexists⟩
      by_cases heq : name = name'
      · subst heq
        cases hr.symm.trans hr₁
        exact ⟨r₁', Function.update_self .., by rw [hdeed.refs_kept hsha]; rfl⟩
      · exact ⟨r, by rwa [Function.update_of_ne heq], hexists⟩
    · intro hheld
      obtain ⟨sha, call', rfl, hk', hname, rfl⟩ := createdBranch_eq_some.mp hheld
      cases hk.symm.trans hk'
      refine Or.inr ?_
      cases hturn with
      | api _ _ hcall =>
        cases hcall with
        | @done name' r r' _ hname' hr hop =>
          cases hname.symm.trans hname'
          obtain ⟨hfree, hcreated⟩ := created_of_creatingPull hop
          have hnew : call.newRef = "refs/heads/" ++ call.branchName := rfl
          rw [hnew] at hfree hcreated
          refine ⟨?_, r', Function.update_self .., by rw [hcreated]; rfl⟩
          rintro ⟨r₁, hr₁, hexists⟩
          cases hr.symm.trans hr₁
          simp [hfree] at hexists
  meanwhile := by
    rintro github e github' hallowed hmeanwhile t ⟨r, hr, hexists⟩
    obtain ⟨r₁, r₁', hr₁, hchange, rfl⟩ := change_of_meanwhile hmeanwhile
    by_cases heq : name = e.1
    · subst heq
      cases hr.symm.trans hr₁
      refine ⟨r₁', Function.update_self .., ?_⟩
      by_cases hmoved : ∃ sha, e.2 = .ref ("refs/heads/" ++ branch) sha
      · obtain ⟨sha, hsha⟩ := hmoved
        rw [hsha] at hchange
        simp only [LeavesBranch, hsha] at hallowed
        cases hchange
        cases sha with
        | none => exact absurd rfl (hallowed trivial trivial)
        | some sha => simp
      · have hrefs : r₁'.refs ("refs/heads/" ++ branch) = r.refs ("refs/heads/" ++ branch) :=
          refs_change hchange fun sha hsha => hmoved ⟨sha, hsha⟩
        rwa [hrefs]
    · exact ⟨r, by rwa [Function.update_of_ne heq], hexists⟩

omit [UnicodeData] in
theorem pullsFrom_update {branch name name' : String} {r r' : Repository}
    (hr : github name' = some r) (hpulls : name = name' → r'.pulls = r.pulls) :
    pullsFrom branch (Function.update github name' (some r')) name =
      pullsFrom branch github name := by
  unfold pullsFrom
  by_cases heq : name = name'
  · subst heq
    rw [Function.update_self, hr]
    simp [hpulls rfl]
  · rw [Function.update_of_ne heq]

theorem spends_publishers (name branch : String) :
    SharedClients.Spends (publishers token githubToken calls) (LeavesBranch name branch)
      (createdBranch calls name branch) () fun github => pullsFrom branch github name where
  turn := by
    intro k github place answer github' place' hact
    obtain ⟨call, hk, hturn⟩ := publishTurn_of_act hact
    rcases hturn.deed with rfl | ⟨name', r, r', hname', hr, hdeed, rfl⟩
    · exact Or.inl (le_refl _)
    cases hdeed with
    | read => exact Or.inl (pullsFrom_update hr fun _ => rfl).le
    | stored hadd => exact Or.inl (pullsFrom_update hr fun _ => (addObject_spec hadd).2.2.2).le
    | branched hcreate =>
      obtain ⟨-, -, hr'⟩ := createGitRef_spec hcreate
      exact Or.inl (pullsFrom_update hr fun _ => by rw [hr']).le
    | @opened sha pull _ hhead _ hcreate =>
      obtain ⟨-, -, rfl⟩ := createPull_spec hcreate
      by_cases hours : name = name' ∧ call.branchName = branch
      · obtain ⟨rfl, rfl⟩ := hours
        refine Or.inr ⟨createdBranch_eq_some.mpr ⟨sha, call, rfl, hk, hname', rfl⟩, ?_, ?_⟩
        · rw [Option.eq_none_iff_forall_ne_some]
          intro _ hheld
          obtain ⟨sha', -, rfl, -⟩ := createdBranch_eq_some.mp hheld
          exact ended_of_creatingPull hturn sha' rfl
        · simp [pullsFrom, hr, List.countP_append, hhead]
      · refine Or.inl ?_
        unfold pullsFrom
        by_cases heq : name = name'
        · subst heq
          have hother : pull.head ≠ branch := fun h => hours ⟨rfl, hhead ▸ h⟩
          simp [hr, List.countP_append, hother]
        · rw [Function.update_of_ne heq]
  meanwhile := by
    intro github e github' hallowed hmeanwhile
    obtain ⟨r, r', hr, hchange, rfl⟩ := change_of_meanwhile hmeanwhile
    by_cases hpulls : name = e.1 ∧ ∃ pulls, e.2 = .pulls pulls
    · obtain ⟨rfl, pulls, he⟩ := hpulls
      simp only [LeavesBranch, he] at hallowed
      rw [he] at hchange
      cases hchange
      simpa [pullsFrom] using hallowed
    · refine (pullsFrom_update hr fun heq => ?_).le
      cases hcase : e.2 with
      | object sha o =>
        rw [hcase] at hchange
        exact (addObject_spec hchange).2.2.2
      | ref ref sha =>
        rw [hcase] at hchange
        cases hchange
        rfl
      | pulls pulls => exact absurd ⟨heq, pulls, hcase⟩ hpulls

/-- However many publications of one branch run, and whatever becomes of their calls, at most one
pull request is opened from it, and none if the branch existed before. -/
theorem one_pull_request_per_branch {name branch : String}
    (hrun : (publishers token githubToken calls).system.RunWhere
      (SharedClients.Within (LeavesBranch name branch)) (beforePublishing github) moves s) :
    pullsFrom branch s.shared name ≤ pullsFrom branch github name + 1 ∧
      ∀ r, github name = some r → (r.refs ("refs/heads/" ++ branch)).isSome →
        pullsFrom branch s.shared name ≤ pullsFrom branch github name := by
  have hfree : SharedClients.TakesFree (publishers token githubToken calls)
      (LeavesBranch name branch) (fun _ => True) (createdBranch calls name branch)
      (BranchExists name branch) := takesFree_publishers name branch
  have hspends : SharedClients.Spends (publishers token githubToken calls)
      (LeavesBranch name branch) (createdBranch calls name branch) ()
      fun github => pullsFrom branch github name :=
    spends_publishers name branch
  have hstart : ∀ k, createdBranch calls name branch k
      ((beforePublishing github).place k) = none := fun _ => rfl
  refine ⟨(hfree.spentOnce hspends (fun _ => trivial) hrun hstart).once, fun r hr hexists => ?_⟩
  have htaken : BranchExists name branch (beforePublishing github).shared () := ⟨r, hr, hexists⟩
  exact hfree.used_le_of_taken hspends (fun _ => trivial) hrun hstart htaken

end Runs

section Demo

attribute [local instance] asciiTables

theorem one_pull_request_per_branch_racing :
    ∃ s : PublishingState, (s.place 0).isReturned = true ∧
      pullsFrom "stackmigrate/run-1" s.shared "owner/shop" ≤ 1 := by
  have hexec : ((publishers none (some "token") [callFor "a.py", callFor "a.py"]).system.exec
      (SharedClients.Within (LeavesBranch "owner/shop" "stackmigrate/run-1"))
      (beforePublishing demoGitHub) (racingMoves.take 16)).any
        (fun s => (s.place 0).isReturned) = true := by decide +kernel
  obtain ⟨s, hrun, hreturned⟩ := DrivenSystem.exists_runWhere_of_exec hexec
  exact ⟨s, hreturned, (one_pull_request_per_branch hrun).1⟩

end Demo

section Runs

variable [UnicodeData] {token githubToken : Option String} {calls : List PublishCall}
  {allowed : GitHub → String × Change → Prop} {github : GitHub}
  {s : PublishingState}
  {moves : List PublishingMove}

/-! ### Refused paths -/

/-- A publication with a path that must not be published is not noticed by anybody: GitHub goes
through the same states without it. -/
theorem refused_publication_is_unnoticed {k : ℕ} {call : PublishCall}
    (hk : calls[k]? = some call) (hbad : ∃ f ∈ call.files, publishablePathProblem f.path ≠ none)
    (hrun : (publishers token githubToken calls).system.RunWhere (SharedClients.Within allowed)
      (beforePublishing github) moves s) :
    (s.place k = .validating ∨ ∃ message, s.place k = .raised (.unpublishablePathError message)) ∧
      ∃ s', (publishers token githubToken calls).system.RunWhere (SharedClients.Within allowed)
        (beforePublishing github) (moves.filter fun m => !m.isTurnOf k) s' ∧
        s'.shared = s.shared ∧ ∀ j, j ≠ k → s'.place j = s.place j := by
  have hunclean : ¬ Publishable call.files := by
    obtain ⟨f, hf, hproblem⟩ := hbad
    exact fun hclean => hproblem (hclean f hf)
  have hplace : ∀ {moves s}, (publishers token githubToken calls).system.RunWhere
      (SharedClients.Within allowed) (beforePublishing github) moves s →
      s.place k = .validating ∨
        ∃ message, s.place k = .raised (.unpublishablePathError message) := by
    intro moves s hrun
    have hs := stands_of_run hrun hk
    by_cases hat : s.place k = .validating
    · exact Or.inl hat
    cases hraised : s.place k with
    | raised error =>
      rw [hraised] at hs
      by_contra hno
      simp only [reduceCtorEq, Publishing.raised.injEq, false_or, not_exists] at hno
      exact hunclean (hs hno)
    | _ =>
      refine absurd (hs.publishable hat ?_) hunclean
      simp [hraised]
  have hidle : ∀ {moves s answer github' place'}, (publishers token githubToken calls).system.RunWhere
      (SharedClients.Within allowed) (beforePublishing github) moves s →
      (publishers token githubToken calls).act k s.shared (s.place k) answer =
        some (github', place') → github' = s.shared := by
    intro moves s answer github' place' hrun hact
    obtain ⟨call', hk', hturn⟩ := publishTurn_of_act hact
    cases hk.symm.trans hk'
    rcases hplace hrun with hat | ⟨message, hat⟩
    · rw [hat] at hturn
      cases hturn with
      | refused | validated => rfl
      | api hnot => exact absurd rfl hnot
    · rw [hat] at hturn
      cases hturn with
      | api _ hgoing => exact absurd rfl (hgoing _)
  obtain ⟨s', hrun', hshared, -, hothers⟩ := SharedClients.run_without hidle hrun
  exact ⟨hplace hrun, s', hrun', hshared, hothers⟩

end Runs

section Demo

attribute [local instance] asciiTables

theorem refused_publication_is_unnoticed_workflow :
    ∃ s : PublishingState, s.place 1 = .raised (.unpublishablePathError
        "Refusing to publish '.github/workflows/ci.yml': targets .git or .github") ∧
      ∃ s' : PublishingState, s'.shared = s.shared ∧ s'.place 0 = s.place 0 ∧ (s'.place 0).isReturned = true := by
  have hexec : ((publishers none (some "token")
      [callFor "app/main.py", callFor ".github/workflows/ci.yml"]).system.exec
      (SharedClients.Within (LeavesRef "owner/shop" "refs/heads/main"))
      (beforePublishing demoGitHub) (.turn 1 {} :: publishMoves 0)).any
        (fun s => (s.place 0).isReturned && decide (s.place 1 = .raised (.unpublishablePathError
          "Refusing to publish '.github/workflows/ci.yml': targets .git or .github"))) = true := by
    decide +kernel
  obtain ⟨s, hrun, hends⟩ := DrivenSystem.exists_runWhere_of_exec hexec
  obtain ⟨hreturned, hrefused⟩ := Bool.and_eq_true_iff.mp hends
  have hbad : ∃ f ∈ (callFor ".github/workflows/ci.yml").files,
      publishablePathProblem f.path ≠ none :=
    ⟨⟨".github/workflows/ci.yml", "code", true⟩, by simp [callFor], by decide +kernel⟩
  have hk : [callFor "app/main.py", callFor ".github/workflows/ci.yml"][1]? =
      some (callFor ".github/workflows/ci.yml") := rfl
  obtain ⟨-, s', -, hshared, hothers⟩ := refused_publication_is_unnoticed hk hbad hrun
  have hsame := hothers 0 (by decide)
  exact ⟨s, of_decide_eq_true hrefused, s', hshared, hsame, hsame ▸ hreturned⟩

end Demo

section Runs

variable [UnicodeData] {token githubToken : Option String} {calls : List PublishCall}
  {allowed : GitHub → String × Change → Prop} {github : GitHub}
  {s : PublishingState}
  {moves : List PublishingMove}

/-! ### From the suite to the repository -/

end Runs

section Demo

attribute [local instance] asciiTables

end Demo

/-! ### The body -/

section Demo

attribute [local instance] asciiTables

end Demo
end StackMigrate
