import StackMigrate.Graph.Replay
import StackMigrate.Sandbox.Batches

/-!
# What removing stale paths takes away

`remove_paths` resolves a path in full before it looks at what is there. So a path that is
a link takes away what the link leads to, and the link stays.
-/

namespace StackMigrate

open KeyedList PathTree FileSystem

/-- The two readings of the entry that a path names. -/
inductive Naming
  /-- Where the segments of the path lead, links aside. -/
  | spelled
  /-- What a system call on the path finds: links on the way are followed, one at the end is not. -/
  | walked

/-- The entry at the end of a walk. -/
def FileSystem.entryAt (fs : FileSystem) (here : Location) (rest : List String) :
    Option Location :=
  match rest.getLast? with
  | none => some here
  | some name =>
    if name = "" ∨ name = "." ∨ name = ".." then fs.pathResolve maxSymlinks [] (here ++ rest)
    else (fs.pathResolve maxSymlinks [] (here ++ rest.dropLast)).map (· ++ [name])

def ownLocation (fs : FileSystem) (workspaceRoot : String) : Naming → String → Option Location
  | .spelled, rel => some (normalize (fs.realpath workspaceRoot) (splitOnChar rel '/'))
  | .walked, rel => fs.entryAt (fs.realpath workspaceRoot) (splitOnChar rel '/')

/-- No entry of the workspace has changed but those that the paths name. -/
def TouchesNamedOnly (naming : Naming) (fs : FileSystem) (workspaceRoot : String)
    (paths : List String) (fs' : FileSystem) : Prop :=
  ∀ loc, fs.realpath workspaceRoot <+: loc →
    (∀ p ∈ paths, ownLocation fs workspaceRoot naming p ≠ some loc) →
    fs'.lookup loc = fs.lookup loc

/-- A resolved path takes the entry at the location away. -/
def Takes (fs : FileSystem) (full loc : Location) : Prop :=
  (fs.isFile full ∨ fs.isLink full) ∧ fs.entryLocation full = some loc

/-- Resolving the path meets no loop of links. -/
def ResolvesFully (fs : FileSystem) (workspaceRoot rel : String) : Prop :=
  (fs.resolve [] (splitOnChar (joinPath (fs.realpath workspaceRoot).toPath rel) '/')).ok = true

variable {fs fs' : FileSystem} {workspaceRoot rel : String} {full loc : Location}
  {paths removed : List String}

/-! ### One path -/

/-- One turn of the deleting loop. -/
def removeOne (fs : FileSystem) (full : Location) : FsResult Unit :=
  if fs.isFile full ∨ fs.isLink full then fs.remove full else (fs, .ok ())

theorem removeOne_ok (h : removeOne fs full = (fs', .ok ())) (loc : Location) :
    (¬ Takes fs full loc ∧ fs'.lookup loc = fs.lookup loc) ∨
      (Takes fs full loc ∧ fs.lookup loc ≠ none ∧ fs'.lookup loc = none) := by
  rw [removeOne] at h
  split_ifs at h with hthere
  · rw [remove] at h
    cases hentry : fs.entryLocation full with
    | none =>
      rw [hentry] at h
      cases h
    | some here =>
      rw [hentry] at h
      dsimp only at h
      have hgone : fs.lookup here ≠ none ∧ fs.lookup here ≠ some .directory ∧
          fs.delete here = fs' := by
        split at h
        · cases h
        · cases h
        · next e hdir hlookup =>
          refine ⟨by simp [hlookup], fun hd => ?_, congrArg Prod.fst h⟩
          rw [hlookup, Option.some.injEq] at hd
          exact hdir hd
      obtain ⟨hsome, hdir, rfl⟩ := hgone
      rw [lookup_delete hdir]
      by_cases hloc : loc = here
      · subst hloc
        exact Or.inr ⟨⟨hthere, hentry⟩, hsome, if_pos rfl⟩
      · refine Or.inl ⟨fun htakes => ?_, if_neg hloc⟩
        exact hloc (Option.some.inj (htakes.2.symm.trans hentry))
  · obtain rfl : fs = fs' := congrArg Prod.fst h
    exact Or.inl ⟨fun htakes => hthere htakes.1, rfl⟩

theorem removeResolved_cons (fs : FileSystem) (rel : String) (full : Location)
    (rest : List (String × Location)) :
    (∃ fs₁ e, removeOne fs full = (fs₁, .error e) ∧
      removeResolved fs ((rel, full) :: rest) = (fs₁, .error e)) ∨
    ∃ fs₁, removeOne fs full = (fs₁, .ok ()) ∧
      (removeResolved fs ((rel, full) :: rest)).1 = (removeResolved fs₁ rest).1 ∧
      ∀ removed, (removeResolved fs ((rel, full) :: rest)).2 = .ok removed →
        ∃ removed', (removeResolved fs₁ rest).2 = .ok removed' := by
  rw [removeOne, removeResolved]
  split_ifs with hthere
  · rcases fs.remove full with ⟨fs₁, e | ⟨⟩⟩
    · exact Or.inl ⟨fs₁, e, rfl, rfl⟩
    · refine Or.inr ⟨fs₁, rfl, ?_⟩
      dsimp only
      rcases removeResolved fs₁ rest with ⟨fs₂, e | removed'⟩
      · exact ⟨rfl, fun removed h => (by cases h)⟩
      · exact ⟨rfl, fun removed _ => ⟨removed', rfl⟩⟩
  · exact Or.inr ⟨fs, rfl, rfl, fun removed h => ⟨removed, h⟩⟩

/-! ### The whole loop -/

/-- What is gone behind the loop was taken away by a path, in the tree that the paths in front
of it left. -/
theorem removeResolved_ok {resolved : List (String × Location)}
    (h : removeResolved fs resolved = (fs', .ok removed)) (loc : Location) :
    ((∀ before x after, resolved = before ++ x :: after →
        ¬ Takes (removeResolved fs before).1 x.2 loc) ∧ fs'.lookup loc = fs.lookup loc) ∨
      ((∃ before x after, resolved = before ++ x :: after ∧
        Takes (removeResolved fs before).1 x.2 loc) ∧
        fs.lookup loc ≠ none ∧ fs'.lookup loc = none) := by
  induction resolved generalizing fs removed with
  | nil =>
    obtain rfl : fs = fs' := congrArg Prod.fst h
    exact Or.inl ⟨fun before x after hlist => (by simp at hlist), rfl⟩
  | cons y rest ih =>
    obtain ⟨rel, full⟩ := y
    rcases removeResolved_cons fs rel full rest with ⟨fs₁, e, -, herror⟩ | ⟨fs₁, hone, hfst, hsnd⟩
    · cases herror.symm.trans h
    · obtain ⟨removed', hok⟩ := hsnd removed (congrArg Prod.snd h)
      have hmore : removeResolved fs₁ rest = (fs', .ok removed') := by
        rw [FsResult.eq_mk hok, ← hfst, h]
      -- the paths behind this one see the tree that it leaves
      have hlater : ∀ before, (removeResolved fs ((rel, full) :: before)).1 =
          (removeResolved fs₁ before).1 := by
        intro before
        rcases removeResolved_cons fs rel full before with
          ⟨fs₂, e, herror, -⟩ | ⟨fs₂, hok₂, hfst₂, -⟩
        · cases herror.symm.trans hone
        · obtain rfl : fs₂ = fs₁ := congrArg Prod.fst (hok₂.symm.trans hone)
          exact hfst₂
      rcases removeOne_ok hone loc with ⟨hkeeps, hsame⟩ | ⟨htakes, hsome, hnone⟩
      · rcases ih hmore with ⟨hnever, hsame'⟩ | ⟨⟨before, x, after, hlist, htakes⟩, hsome, hnone⟩
        · refine Or.inl ⟨fun before x after hlist => ?_, hsame'.trans hsame⟩
          cases before with
          | nil =>
            obtain ⟨rfl, -⟩ := List.cons.inj hlist
            exact hkeeps
          | cons z before =>
            obtain ⟨rfl, htail⟩ := List.cons.inj hlist
            rw [hlater]
            exact hnever before x after htail
        · refine Or.inr ⟨⟨(rel, full) :: before, x, after, by simp [hlist], ?_⟩, hsame ▸ hsome,
            hnone⟩
          rwa [hlater]
      · refine Or.inr ⟨⟨[], (rel, full), rest, rfl, htakes⟩, hsome, ?_⟩
        rcases ih hmore with ⟨-, hsame'⟩ | ⟨-, -, hnone'⟩
        · exact hsame'.trans hnone
        · exact hnone'

theorem takenAway_or_kept (h : removePaths fs workspaceRoot paths = (fs', .ok removed))
    (loc : Location) :
    ((∀ before p after, paths = before ++ p :: after →
        ¬ Takes (removePaths fs workspaceRoot before).1 (locate fs workspaceRoot p) loc) ∧
        fs'.lookup loc = fs.lookup loc) ∨
      ((∃ before p after, paths = before ++ p :: after ∧
        Takes (removePaths fs workspaceRoot before).1 (locate fs workspaceRoot p) loc) ∧
        fs.lookup loc ≠ none ∧ fs'.lookup loc = none) := by
  have haccepted := accepted_of_removePaths h
  have hbefore : ∀ before p after, paths = before ++ p :: after →
      removePaths fs workspaceRoot before =
        removeResolved fs (before.map fun p => (p, locate fs workspaceRoot p)) :=
    fun before p after hpaths => removePaths_eq fun q hq => haccepted q (by simp [hpaths, hq])
  rw [removePaths_eq haccepted] at h
  rcases removeResolved_ok h loc with ⟨hnever, hsame⟩ | ⟨⟨before, x, after, hlist, htakes⟩, hgone⟩
  · refine Or.inl ⟨fun before p after hpaths => ?_, hsame⟩
    rw [hbefore before p after hpaths]
    exact hnever _ (p, locate fs workspaceRoot p) _ (by rw [hpaths, List.map_append, List.map_cons])
  · obtain ⟨before, tail, hpaths, rfl, htail⟩ := List.map_eq_append_iff.mp hlist
    obtain ⟨p, after, rfl, rfl, rfl⟩ := List.map_eq_cons_iff.mp htail
    refine Or.inr ⟨⟨before, p, after, hpaths, ?_⟩, hgone⟩
    rwa [hbefore before p after hpaths]

/-! ### Without loops -/

/-- A path without a loop of links takes away the file it leads to. -/
theorem lookup_eq_iff_of_resolvesFully
    (h : removePaths fs workspaceRoot paths = (fs', .ok removed))
    (hfully : ∀ p ∈ paths, ResolvesFully fs workspaceRoot p) (loc : Location) :
    fs'.lookup loc = fs.lookup loc ↔
      ¬ ∃ p ∈ paths, LeadsTo fs workspaceRoot p loc ∧
        ∃ content, fs.lookup loc = some (.file content) := by
  have haccepted := accepted_of_removePaths h
  have hplain : ∀ p ∈ paths, Plain fs (locate fs workspaceRoot p) := by
    intro p hp
    refine ⟨isProper_locate fs workspaceRoot p, ?_⟩
    rw [locate_eq, FileSystem.realpath, if_pos (startsWith_joinPath _ p)]
    exact canonical_resolve (canonical_nil fs) (slashFree_splitOnChar _) (hfully p hp)
  obtain ⟨fs₁, removed₁, hremove, htree, hlinks, -⟩ := removePaths_of_plain hplain haccepted
  obtain rfl : fs₁ = fs' := congrArg Prod.fst (hremove.symm.trans h)
  have hat : fs₁.tree loc = erase fs.tree (paths.map (locate fs workspaceRoot)) loc := by rw [htree]
  rw [erase, fileAt_tree] at hat
  constructor
  · rintro hsame ⟨p, hp, hlead, content, hfile⟩
    have hmem := List.mem_map_of_mem (f := locate fs workspaceRoot) hp
    rw [hlead.locate_eq] at hmem
    have hcontent : (fs.contentAt loc).isSome = true :=
      Option.isSome_iff_exists.mpr ⟨content, contentAt_eq_some.mpr hfile⟩
    rw [if_pos ⟨hmem, hcontent⟩] at hat
    have hstill := tree_eq_file.mpr (hsame.trans hfile)
    cases hat.symm.trans hstill
  · intro hno
    refine lookup_of_tree_eq hlinks (hat.trans (if_neg ?_))
    rintro ⟨hmem, hsome⟩
    obtain ⟨p, hp, hloc⟩ := List.mem_map.mp hmem
    obtain ⟨content, hcontent⟩ := Option.isSome_iff_exists.mp hsome
    exact hno ⟨p, hp, (leadsTo_iff (haccepted p hp)).mpr hloc, content,
      contentAt_eq_some.mp hcontent⟩

/-! ### The result -/

/-- Only named entries are touched if and only if no path takes another entry away; where no
path runs into a loop of links, if and only if every file that a path leads to is the entry
that some path names. -/
theorem removal_touches_named_iff (naming : Naming) (fs fs' : FileSystem) (workspaceRoot : String)
    (paths removed : List String) (h : removePaths fs workspaceRoot paths = (fs', .ok removed)) :
    (TouchesNamedOnly naming fs workspaceRoot paths fs' ↔
      ∀ before p after, paths = before ++ p :: after → ∀ loc, fs.realpath workspaceRoot <+: loc →
        Takes (removePaths fs workspaceRoot before).1 (locate fs workspaceRoot p) loc →
        ∃ q ∈ paths, ownLocation fs workspaceRoot naming q = some loc) ∧
    ((∀ p ∈ paths, ResolvesFully fs workspaceRoot p) →
      (TouchesNamedOnly naming fs workspaceRoot paths fs' ↔
        ∀ p ∈ paths, ∀ loc content, LeadsTo fs workspaceRoot p loc →
          fs.lookup loc = some (.file content) →
          ∃ q ∈ paths, ownLocation fs workspaceRoot naming q = some loc)) := by
  refine ⟨⟨?_, ?_⟩, fun hfully => ⟨?_, ?_⟩⟩
  · intro honly before p after hpaths loc hbelow htakes
    rcases takenAway_or_kept h loc with ⟨hnever, -⟩ | ⟨-, hsome, hnone⟩
    · exact absurd htakes (hnever before p after hpaths)
    · by_contra hno
      push Not at hno
      have hsame := honly loc hbelow hno
      exact hsome (hsame.symm.trans hnone)
  · intro hnamed loc hbelow hno
    rcases takenAway_or_kept h loc with ⟨-, hsame⟩ | ⟨⟨before, p, after, hpaths, htakes⟩, -⟩
    · exact hsame
    · obtain ⟨q, hq, hown⟩ := hnamed before p after hpaths loc hbelow htakes
      exact absurd hown (hno q hq)
  · intro honly p hp loc content hlead hfile
    have hbelow : fs.realpath workspaceRoot <+: loc := hlead.locate_eq ▸ hlead.accepted.below
    by_contra hno
    push Not at hno
    exact (lookup_eq_iff_of_resolvesFully h hfully loc).mp (honly loc hbelow hno)
      ⟨p, hp, hlead, content, hfile⟩
  · intro hnamed loc _ hno
    rw [lookup_eq_iff_of_resolvesFully h hfully]
    rintro ⟨p, hp, hlead, content, hfile⟩
    obtain ⟨q, hq, hown⟩ := hnamed p hp loc content hlead hfile
    exact hno q hq hown

/-- A workspace in which one module is a link to another one. -/
def aliasedWorkspace : FileSystem :=
  ((workspaceWith [("real.py", "code")]).put ["workspace", "alias.py"] (.symlink "real.py")).getD
    demoWorkspace

theorem removal_of_real_touches_named :
    TouchesNamedOnly .walked aliasedWorkspace "/workspace" ["real.py"]
      (removePaths aliasedWorkspace "/workspace" ["real.py"]).1 := by
  have hok : (removePaths aliasedWorkspace "/workspace" ["real.py"]).2 = .ok ["real.py"] := by
    decide +kernel
  refine ((removal_touches_named_iff .walked _ _ _ _ _ (FsResult.eq_mk hok)).2 ?_).mpr ?_
  · intro p hp
    obtain rfl : p = "real.py" := by simpa using hp
    unfold ResolvesFully
    decide +kernel
  · intro p hp loc content hlead _
    obtain rfl : p = "real.py" := by simpa using hp
    refine ⟨"real.py", by simp, ?_⟩
    rw [← hlead.locate_eq]
    decide +kernel

/-- The module goes and the link to it stays. -/
theorem removal_of_alias_takes_target :
    (removePaths aliasedWorkspace "/workspace" ["alias.py"]).2 = .ok ["alias.py"] ∧
    ¬ TouchesNamedOnly .spelled aliasedWorkspace "/workspace" ["alias.py"]
      (removePaths aliasedWorkspace "/workspace" ["alias.py"]).1 ∧
    ¬ TouchesNamedOnly .walked aliasedWorkspace "/workspace" ["alias.py"]
      (removePaths aliasedWorkspace "/workspace" ["alias.py"]).1 := by
  have hgone : (removePaths aliasedWorkspace "/workspace" ["alias.py"]).1.lookup
      ["workspace", "real.py"] ≠ aliasedWorkspace.lookup ["workspace", "real.py"] := by
    decide +kernel
  refine ⟨by decide +kernel, fun honly => hgone (honly _ (by decide +kernel) ?_),
    fun honly => hgone (honly _ (by decide +kernel) ?_)⟩
  all_goals
    intro p hp
    obtain rfl : p = "alias.py" := by simpa using hp
    decide +kernel

end StackMigrate
