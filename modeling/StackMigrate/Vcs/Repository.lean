import StackMigrate.Core.Python
import StackMigrate.Library.ObjectStore

/-!
# Repositories behind the GitHub API

What the publisher relies on of the service: git objects that are kept for good, refs that
are created only once, and pull requests. Everybody else may add objects, move or delete
refs and change the list of pull requests. Of a tree the paths of its files are kept.
-/

namespace StackMigrate

abbrev Sha := String

/-- One file of a tree. -/
structure TreeEntry where
  path : String
  mode : String
  content : String
  deriving DecidableEq, Repr

structure InputGitTreeElement where
  path : String
  mode : String
  type : String
  content : String
  deriving DecidableEq, Repr

structure GitCommit where
  message : String
  tree : Sha
  parents : List Sha
  deriving DecidableEq, Repr

inductive GitObject
  | tree (entries : List TreeEntry)
  | commit (c : GitCommit)
  deriving DecidableEq, Repr

structure PullRequest where
  title : String
  body : String
  head : String
  base : String
  htmlUrl : String
  deriving DecidableEq, Repr

structure Repository where
  objects : Sha → Option GitObject
  refs : String → Option Sha
  pulls : List PullRequest

/-! ### Trees -/

/-- Two paths that cannot both be files of one tree, or that are the same. -/
def Clash (p q : String) : Prop :=
  (splitOnChar p '/').IsPrefix (splitOnChar q '/') ∨
    (splitOnChar q '/').IsPrefix (splitOnChar p '/')

instance (p q : String) : Decidable (Clash p q) :=
  inferInstanceAs (Decidable ((splitOnChar p '/').IsPrefix (splitOnChar q '/') ∨
    (splitOnChar q '/').IsPrefix (splitOnChar p '/')))

theorem Clash.refl (p : String) : Clash p p := Or.inl List.prefix_rfl

theorem Clash.symm {p q : String} (h : Clash p q) : Clash q p := Or.symm h

namespace Repository

/-- The content of a file. -/
def contentAt (entries : List TreeEntry) (path : String) : Option String :=
  (entries.find? fun e => e.path = path).map TreeEntry.content

/-- The elements on top of a base tree: they replace what they clash with. -/
def overlay (base : List TreeEntry) (elements : List InputGitTreeElement) : List TreeEntry :=
  (base.filter fun e => elements.all fun x => ¬ Clash e.path x.path) ++
    elements.map fun x => ⟨x.path, x.mode, x.content⟩

/-! ### Calls of the API -/

variable (r : Repository)

/-- `get_git_ref`. -/
def getGitRef (ref : String) : Option Sha := r.refs ("refs/" ++ ref)

/-- `get_git_commit`. -/
def getGitCommit (sha : Sha) : Option GitCommit :=
  match r.objects sha with
  | some (.commit c) => some c
  | _ => none

def getGitTree (sha : Sha) : Option (List TreeEntry) :=
  match r.objects sha with
  | some (.tree entries) => some entries
  | _ => none

/-- Store an object under its hash. -/
def addObject (sha : Sha) (o : GitObject) : Option Repository :=
  (ObjectStore.add r.objects sha o).map fun objects => { r with objects := objects }

/-- `create_git_tree` on top of a base tree; `sha` is the hash of the result. -/
def createGitTree (elements : List InputGitTreeElement) (baseTree sha : Sha) :
    Option Repository := do
  let base ← r.getGitTree baseTree
  if elements.Pairwise fun x y => ¬ Clash x.path y.path then
    r.addObject sha (.tree (overlay base elements))
  else none

/-- `create_git_commit`. -/
def createGitCommit (c : GitCommit) (sha : Sha) : Option Repository := r.addObject sha (.commit c)

/-- `create_git_ref`: a ref that exists is refused, and so is a hash of no commit. -/
def createGitRef (ref : String) (sha : Sha) : Option Repository :=
  if (r.refs ref).isSome ∨ (r.getGitCommit sha).isNone then none
  else some { r with refs := Function.update r.refs ref (some sha) }

/-- `create_pull`, between two branches that exist. -/
def createPull (pull : PullRequest) : Option Repository :=
  if (r.refs ("refs/heads/" ++ pull.head)).isSome ∧ (r.refs ("refs/heads/" ++ pull.base)).isSome
  then some { r with pulls := r.pulls ++ [pull] }
  else none

/-- What anybody else does to the repository. -/
inductive Change
  | object (sha : Sha) (o : GitObject)
  | ref (ref : String) (sha : Option Sha)
  | pulls (pulls : List PullRequest)

def change : Change → Option Repository
  | .object sha o => r.addObject sha o
  | .ref ref sha => some { r with refs := Function.update r.refs ref sha }
  | .pulls pulls => some { r with pulls := pulls }

/-! ### What the calls leave -/

variable {r} {r' : Repository} {sha : Sha} {o : GitObject}

theorem addObject_spec (h : r.addObject sha o = some r') :
    ObjectStore.Extends r.objects r'.objects ∧ r'.objects sha = some o ∧ r'.refs = r.refs ∧
      r'.pulls = r.pulls := by
  obtain ⟨objects, hadd, rfl⟩ := Option.map_eq_some_iff.mp h
  exact ⟨ObjectStore.extends_add hadd, ObjectStore.get_add hadd, rfl, rfl⟩

theorem createGitTree_spec {elements : List InputGitTreeElement} {baseTree : Sha}
    (h : r.createGitTree elements baseTree sha = some r') :
    ∃ base, r.getGitTree baseTree = some base ∧
      (elements.Pairwise fun x y => ¬ Clash x.path y.path) ∧
      r.addObject sha (.tree (overlay base elements)) = some r' := by
  simp only [createGitTree, Option.bind_eq_bind, Option.bind_eq_some_iff] at h
  obtain ⟨base, hbase, h⟩ := h
  split_ifs at h with hapart
  exact ⟨base, hbase, hapart, h⟩

theorem createGitRef_spec {ref : String} (h : r.createGitRef ref sha = some r') :
    r.refs ref = none ∧ (r.getGitCommit sha).isSome ∧
      r' = { r with refs := Function.update r.refs ref (some sha) } := by
  unfold createGitRef at h
  split_ifs at h with hused
  cases h
  simp only [not_or, Bool.not_eq_true, Option.isSome_eq_false_iff, Option.isNone_iff_eq_none]
    at hused
  exact ⟨hused.1, Option.isSome_iff_ne_none.mpr hused.2, rfl⟩

theorem createPull_spec {pull : PullRequest} (h : r.createPull pull = some r') :
    (r.refs ("refs/heads/" ++ pull.head)).isSome ∧
      (r.refs ("refs/heads/" ++ pull.base)).isSome ∧
      r' = { r with pulls := r.pulls ++ [pull] } := by
  unfold createPull at h
  split_ifs at h with hboth
  cases h
  exact ⟨hboth.1, hboth.2, rfl⟩

theorem extends_change {change : Change} (h : r.change change = some r') :
    ObjectStore.Extends r.objects r'.objects := by
  cases change with
  | object sha o => exact (addObject_spec h).1
  | ref | pulls =>
    cases h
    exact ObjectStore.Extends.refl _

theorem refs_change {change : Change} {ref : String} (h : r.change change = some r')
    (hne : ∀ sha, change ≠ .ref ref sha) : r'.refs ref = r.refs ref := by
  cases change with
  | object sha o => rw [(addObject_spec h).2.2.1]
  | ref ref' sha =>
    cases h
    have hother : ref ≠ ref' := by
      rintro rfl
      exact hne sha rfl
    exact Function.update_of_ne hother _ _
  | pulls =>
    cases h
    rfl

theorem getGitCommit_eq {c : GitCommit} : r.getGitCommit sha = some c ↔
    r.objects sha = some (.commit c) := by
  unfold getGitCommit
  split <;> simp_all

theorem getGitTree_eq {entries : List TreeEntry} : r.getGitTree sha = some entries ↔
    r.objects sha = some (.tree entries) := by
  unfold getGitTree
  split <;> simp_all

/-! ### Reading a tree on top of another -/

variable {base : List TreeEntry} {elements : List InputGitTreeElement} {path : String}

/-- An element is read back. -/
theorem contentAt_overlay_of_mem (hapart : elements.Pairwise fun x y => ¬ Clash x.path y.path)
    {x : InputGitTreeElement} (hx : x ∈ elements) :
    contentAt (overlay base elements) x.path = some x.content := by
  have hbase : (base.filter fun e => elements.all fun x => ¬ Clash e.path x.path).find?
      (fun e => e.path = x.path) = none := by
    rw [List.find?_eq_none]
    intro e he heq
    have hclear := List.all_eq_true.mp (List.mem_filter.mp he).2 x hx
    simp only [decide_eq_true_eq] at heq hclear
    exact hclear (heq ▸ Clash.refl _)
  rw [contentAt, overlay, List.find?_append, hbase, Option.none_or]
  induction elements with
  | nil => cases hx
  | cons y rest ih =>
    rw [List.map_cons, List.find?_cons]
    rcases List.mem_cons.mp hx with rfl | hrest
    · simp
    · have hne : y.path ≠ x.path := by
        intro heq
        exact (List.pairwise_cons.mp hapart).1 x hrest (heq ▸ Clash.refl _)
      simp only [hne, decide_false]
      refine ih (List.pairwise_cons.mp hapart).2 hrest ?_
      rw [List.find?_eq_none] at hbase ⊢
      intro e he heq
      have hclear := List.all_eq_true.mp (List.mem_filter.mp he).2 x hrest
      simp only [decide_eq_true_eq] at heq hclear
      exact hclear (heq ▸ Clash.refl _)

/-- Away from the elements the base tree is read. -/
theorem contentAt_overlay_of_clear (hclear : ∀ x ∈ elements, ¬ Clash path x.path) :
    contentAt (overlay base elements) path = contentAt base path := by
  have helements : (elements.map fun x => (⟨x.path, x.mode, x.content⟩ : TreeEntry)).find?
      (fun e => e.path = path) = none := by
    rw [List.find?_eq_none]
    intro e he heq
    obtain ⟨x, hx, rfl⟩ := List.mem_map.mp he
    simp only [decide_eq_true_eq] at heq
    exact hclear x hx (heq ▸ Clash.refl _)
  have hkept : (fun e : TreeEntry => decide ((elements.all fun x => ¬ Clash e.path x.path) = true ∧
      decide (e.path = path) = true)) = fun e => decide (e.path = path) := by
    funext e
    by_cases heq : e.path = path
    · subst heq
      simpa using hclear
    · simp [heq]
  rw [contentAt, overlay, List.find?_append, helements, Option.or_none, List.find?_filter, hkept,
    contentAt]

end Repository
end StackMigrate
