import StackMigrate.Sandbox.Trees

/-!
# The batches on a workspace without links

All paths of a batch are resolved before the tree is touched, and nothing the batch does
changes how a path resolves. On a workspace without links removing and writing are then
operations on a tree of files.
-/

namespace StackMigrate

open KeyedList PathTree FileSystem

variable {fs fs' : FileSystem} {workspaceRoot rel : String} {full root : Location}

/-! ### Resolving -/

/-- The location that the guard looks at. -/
@[irreducible] def locate (fs : FileSystem) (workspaceRoot rel : String) : Location :=
  fs.realpath (joinPath (fs.realpath workspaceRoot).toPath rel)

theorem locate_eq (fs : FileSystem) (workspaceRoot rel : String) : locate fs workspaceRoot rel =
    fs.realpath (joinPath (fs.realpath workspaceRoot).toPath rel) := by
  delta locate
  rfl

theorem isProper_locate (fs : FileSystem) (workspaceRoot rel : String) :
    (locate fs workspaceRoot rel).IsProper := by
  rw [locate_eq]
  exact isProper_realpath fs _

/-- The path gets past the guard. -/
def Accepted (fs : FileSystem) (workspaceRoot rel : String) : Prop :=
  resolveSafePath fs workspaceRoot rel = .ok (locate fs workspaceRoot rel)

theorem resolveSafePath_eq (fs : FileSystem) (workspaceRoot rel : String) :
    Accepted fs workspaceRoot rel ∨ ∃ e, resolveSafePath fs workspaceRoot rel = .error e := by
  unfold Accepted resolveSafePath
  split_ifs
  · exact Or.inr ⟨_, rfl⟩
  · exact Or.inr ⟨_, rfl⟩
  · dsimp only
    split_ifs
    · exact Or.inr ⟨_, rfl⟩
    · exact Or.inl (by rw [locate_eq])

theorem resolveSafePath_ok (h : resolveSafePath fs workspaceRoot rel = .ok full) :
    Accepted fs workspaceRoot rel ∧ full = locate fs workspaceRoot rel := by
  rcases resolveSafePath_eq fs workspaceRoot rel with hacc | ⟨e, he⟩
  · exact ⟨hacc, Except.ok.inj (h.symm.trans hacc)⟩
  · cases h.symm.trans he

/-- The path is accepted and resolves to the location. -/
def LeadsTo (fs : FileSystem) (workspaceRoot rel : String) (loc : Location) : Prop :=
  resolveSafePath fs workspaceRoot rel = .ok loc

theorem LeadsTo.accepted (h : LeadsTo fs workspaceRoot rel full) : Accepted fs workspaceRoot rel :=
  (resolveSafePath_ok h).1

/-- The location of an accepted path is the one it resolves to. -/
theorem leadsTo_iff (h : Accepted fs workspaceRoot rel) :
    LeadsTo fs workspaceRoot rel full ↔ locate fs workspaceRoot rel = full := by
  rw [LeadsTo, h, Except.ok.injEq]

theorem LeadsTo.locate_eq (h : LeadsTo fs workspaceRoot rel full) :
    locate fs workspaceRoot rel = full :=
  (leadsTo_iff h.accepted).mp h

/-- What gets past the guard is at or below the root. -/
theorem Accepted.below (h : Accepted fs workspaceRoot rel) :
    fs.realpath workspaceRoot <+: locate fs workspaceRoot rel := by
  have hproper := isProper_realpath fs (joinPath (fs.realpath workspaceRoot).toPath rel)
  have hroot := isProper_realpath fs workspaceRoot
  rw [Accepted, resolveSafePath, locate_eq] at h
  rw [locate_eq]
  split_ifs at h
  dsimp only at h
  split_ifs at h with hcond
  rw [not_and_or, not_not, not_not] at hcond
  rcases hcond with heq | hstart
  · rw [hproper.toPath_injective hroot heq]
  · exact hproper.isPrefix_of_startsWith hroot hstart

theorem resolveSafePath_congr (h : fs.SameLinks fs') (hcwd : fs'.cwd = fs.cwd)
    (workspaceRoot rel : String) :
    resolveSafePath fs workspaceRoot rel = resolveSafePath fs' workspaceRoot rel := by
  have hreal := fun path => realpath_congr h hcwd path
  simp only [resolveSafePath, hreal]

theorem locate_congr (h : fs.SameLinks fs') (hcwd : fs'.cwd = fs.cwd)
    (workspaceRoot rel : String) :
    locate fs workspaceRoot rel = locate fs' workspaceRoot rel := by
  simp only [locate_eq, realpath_congr h hcwd]

theorem accepted_congr (h : fs.SameLinks fs') (hcwd : fs'.cwd = fs.cwd) :
    Accepted fs workspaceRoot rel ↔ Accepted fs' workspaceRoot rel := by
  rw [Accepted, Accepted, resolveSafePath_congr h hcwd, locate_congr h hcwd]

theorem mapM_of_forall_ok {α β ε : Type} {f : α → Except ε β} {g : α → β} {l : List α}
    (h : ∀ x ∈ l, f x = .ok (g x)) : l.mapM f = .ok (l.map g) := by
  induction l with
  | nil => rfl
  | cons x l ih =>
    rw [List.mapM_cons, h x (by simp), ih fun y hy => h y (List.mem_cons_of_mem _ hy)]
    rfl

theorem mapM_of_error {α β ε : Type} {f : α → Except ε β} {l : List α}
    (h : ∃ x ∈ l, ∃ e, f x = .error e) : ∃ e, l.mapM f = .error e := by
  induction l with
  | nil => simp at h
  | cons x l ih =>
    rw [List.mapM_cons]
    cases hx : f x with
    | error e => exact ⟨e, rfl⟩
    | ok y =>
      have hrest : ∃ x ∈ l, ∃ e, f x = .error e := by
        obtain ⟨z, hz, e, he⟩ := h
        rcases List.mem_cons.mp hz with rfl | hz
        · cases hx.symm.trans he
        · exact ⟨z, hz, e, he⟩
      obtain ⟨e, he⟩ := ih hrest
      exact ⟨e, by rw [he]; rfl⟩

/-- The guard, run over a batch: everything is resolved, or nothing is done. -/
theorem mapM_resolveSafePath {α β : Type} (path : α → String) (pair : α → Location → β)
    (fs : FileSystem) (workspaceRoot : String) (batch : List α) :
    ((∀ x ∈ batch, Accepted fs workspaceRoot (path x)) ∧
        (batch.mapM fun x => (resolveSafePath fs workspaceRoot (path x)).map (pair x)) =
          .ok (batch.map fun x => pair x (locate fs workspaceRoot (path x)))) ∨
      ((∃ x ∈ batch, ¬ Accepted fs workspaceRoot (path x)) ∧
        ∃ e, (batch.mapM fun x => (resolveSafePath fs workspaceRoot (path x)).map (pair x)) =
          .error e) := by
  by_cases hall : ∀ x ∈ batch, Accepted fs workspaceRoot (path x)
  · refine Or.inl ⟨hall, mapM_of_forall_ok fun x hx => ?_⟩
    rw [hall x hx]
    rfl
  · push Not at hall
    obtain ⟨x, hx, hrefused⟩ := hall
    refine Or.inr ⟨⟨x, hx, hrefused⟩, mapM_of_error ⟨x, hx, ?_⟩⟩
    rcases resolveSafePath_eq fs workspaceRoot (path x) with hacc | ⟨e, he⟩
    · exact absurd hacc hrefused
    · exact ⟨e, by rw [he]; rfl⟩

/-! ### Workspaces without links -/

/-- No link inside the workspace, nor on the way from the root of the file system to it. -/
def LinkFree (fs : FileSystem) (root : Location) : Prop :=
  ∀ loc target, fs.lookup loc = some (.symlink target) → ¬ loc <+: root ∧ ¬ root <+: loc

theorem LinkFree.congr (h : LinkFree fs root) (hlinks : fs.SameLinks fs') : LinkFree fs' root :=
  fun loc target hlookup => h loc target ((hlinks loc target).mpr hlookup)

/-- The workspace stays free of links as long as no link is made. -/
theorem LinkFree.realpath (h : LinkFree fs (fs.realpath workspaceRoot))
    (hlinks : fs.SameLinks fs') (hcwd : fs'.cwd = fs.cwd) :
    LinkFree fs' (fs'.realpath workspaceRoot) := by
  rw [← realpath_congr hlinks hcwd]
  exact h.congr hlinks

theorem LinkFree.canonical (h : LinkFree fs root) (hpre : root <+: full) : fs.Canonical full := by
  intro q target hq hlookup
  rcases List.prefix_or_prefix_of_prefix hq hpre with hroot | hroot
  · exact (h q target hlookup).1 hroot
  · exact (h q target hlookup).2 hroot

theorem LinkFree.of_noSymlinks (h : fs.NoSymlinks) (root : Location) : LinkFree fs root :=
  fun loc target hlookup => absurd hlookup (h loc target)

theorem realpath_toPath (h : fs.NoSymlinks) (hroot : root.IsProper) :
    fs.realpath root.toPath = root := by
  rw [FileSystem.realpath, if_pos root.startsWith_toPath,
    resolve_of_noSymlinks h (slashFree_splitOnChar _)]
  by_cases hne : root = []
  · subst hne
    decide
  · rw [hroot.splitOnChar_toPath hne]
    have hnames : FileSystem.normalize [] root = root := normalize_proper hroot
    simpa [FileSystem.normalize] using hnames

/-- Without links a path is read segment by segment. -/
theorem locate_of_noSymlinks (h : fs.NoSymlinks) (hroot : root.IsProper) (rel : String) :
    locate fs root.toPath rel = normalize root (splitOnChar rel '/') := by
  simp only [locate_eq, realpath_toPath h hroot]
  rw [FileSystem.realpath, if_pos (startsWith_joinPath root rel),
    resolve_of_noSymlinks h (slashFree_splitOnChar _), hroot.splitOnChar_joinPath]
  dsimp only
  rw [List.cons_append, normalize_skip (Or.inl rfl), normalize_append hroot]
  rfl

/-- What the guard says without links. -/
theorem accepted_iff (h : fs.NoSymlinks) (hroot : root.IsProper) (hne : root ≠ []) :
    Accepted fs root.toPath rel ↔ startsWith rel "/" = false ∧ '\x00' ∉ rel.toList ∧
      root <+: normalize root (splitOnChar rel '/') := by
  rw [← locate_of_noSymlinks h hroot]
  constructor
  · intro hacc
    have hbelow := hacc.below
    rw [realpath_toPath h hroot] at hbelow
    rw [Accepted, resolveSafePath] at hacc
    split_ifs at hacc with hstart hnul
    exact ⟨by simpa using hstart, hnul, hbelow⟩
  · rintro ⟨hstart, hnul, hbelow⟩
    rw [Accepted, resolveSafePath, if_neg (by simp [hstart]), if_neg hnul]
    simp only [realpath_toPath h hroot]
    have hcandidate : fs.realpath (joinPath root.toPath rel) = locate fs root.toPath rel := by
      simp only [locate_eq, realpath_toPath h hroot]
    rw [hcandidate, if_neg]
    rintro ⟨hother, hstart'⟩
    refine hstart' (Location.IsProper.startsWith_of_isPrefix hne hbelow fun heq => hother ?_)
    rw [← heq]

/-- Where the tree is canonical, batches act on locations as they are. -/
def Plain (fs : FileSystem) (loc : Location) : Prop := loc.IsProper ∧ fs.Canonical loc

theorem Plain.dropLast (h : Plain fs full) : Plain fs full.dropLast :=
  ⟨h.1.dropLast, h.2.of_isPrefix (List.dropLast_prefix full)⟩

theorem Plain.congr (h : Plain fs full) (hlinks : fs.SameLinks fs') : Plain fs' full :=
  ⟨h.1, h.2.congr hlinks⟩

theorem Accepted.plain (h : Accepted fs workspaceRoot rel)
    (hfree : LinkFree fs (fs.realpath workspaceRoot)) :
    Plain fs (locate fs workspaceRoot rel) :=
  ⟨isProper_locate fs workspaceRoot rel, hfree.canonical h.below⟩

/-! ### Removing -/

theorem remove_file (hplain : Plain fs full) {content : String}
    (hfile : fs.lookup full = some (.file content)) :
    ∃ fs', fs.remove full = (fs', .ok ()) ∧ fs'.tree = erase fs.tree [full] ∧
      fs.SameLinks fs' ∧ fs'.cwd = fs.cwd := by
  have hdelete : ∀ q, (fs.delete full).lookup q = if q = full then none else fs.lookup q :=
    lookup_delete (by simp [hfile])
  refine ⟨fs.delete full, ?_, ?_, ?_, cwd_delete fs full⟩
  · simp [remove, entryLocation_of_lookup hplain.1 hplain.2 hfile, hfile]
  · funext q
    by_cases hq : q = full
    · subst hq
      have hsome : (PathTree.fileAt fs.tree q).isSome := by
        rw [fileAt_tree, contentAt_eq_some.mpr hfile]
        rfl
      rw [erase, if_pos ⟨by simp, hsome⟩, tree, hdelete, if_pos rfl]
    · rw [erase, if_neg (by simp [hq]), tree, tree, hdelete, if_neg hq]
  · intro q target
    rw [hdelete]
    split_ifs with hq
    · simp [hq, hfile]
    · rfl

/-- Removing drops the files at the given locations, and it always comes through. -/
theorem removeResolved_spec {resolved : List (String × Location)}
    (hplain : ∀ x ∈ resolved, Plain fs x.2) :
    ∃ fs' removed, removeResolved fs resolved = (fs', .ok removed) ∧
      fs'.tree = erase fs.tree (resolved.map Prod.snd) ∧ fs.SameLinks fs' ∧ fs'.cwd = fs.cwd := by
  induction resolved generalizing fs with
  | nil =>
    refine ⟨fs, [], rfl, ?_, .refl fs, rfl⟩
    funext q
    simp [erase]
  | cons x rest ih =>
    obtain ⟨rel, full⟩ := x
    have hx := hplain (rel, full) (by simp)
    have hrest := fun y hy => hplain y (List.mem_cons_of_mem _ hy)
    have hnotLink := isLink_eq_false hx.1 hx.2
    by_cases hfile : ∃ content, fs.lookup full = some (.file content)
    · obtain ⟨content, hcontent⟩ := hfile
      obtain ⟨fs₁, hremove, htree, hlinks, hcwd⟩ := remove_file hx hcontent
      obtain ⟨fs₂, removed, hmore, htree₂, hlinks₂, hcwd₂⟩ :=
        ih fun y hy => (hrest y hy).congr hlinks
      refine ⟨fs₂, rel :: removed, ?_, ?_, hlinks.trans hlinks₂, hcwd₂.trans hcwd⟩
      · rw [removeResolved, if_pos (Or.inl ((isFile_iff hx.1 hx.2).mpr ⟨content, hcontent⟩)),
          hremove]
        dsimp only
        rw [hmore]
      · rw [htree₂, htree, erase_cons, List.map_cons]
    · obtain ⟨fs₂, removed, hmore, htree₂, hlinks₂, hcwd₂⟩ := ih hrest
      refine ⟨fs₂, removed, ?_, ?_, hlinks₂, hcwd₂⟩
      · rw [removeResolved, if_neg (by simp [isFile_iff hx.1 hx.2, hfile, hnotLink]), hmore]
      · have hnone : erase fs.tree [full] = fs.tree := by
          funext q
          by_cases hq : q = full
          · subst hq
            have hnofile : PathTree.fileAt fs.tree q = none := by
              rw [fileAt_tree, Option.eq_none_iff_forall_ne_some]
              exact fun content hcontent => hfile ⟨content, contentAt_eq_some.mp hcontent⟩
            simp [erase, hnofile]
          · simp [erase, hq]
        rw [htree₂, List.map_cons, ← erase_cons, hnone]

/-! ### Writing -/

/-- One turn of the writing loop. -/
def writeOne (fs : FileSystem) (full : Location) (content : String) : FsResult Unit :=
  match fs.makedirs full.dropLast with
  | (fs₁, .error e) => (fs₁, .error e)
  | (fs₁, .ok ()) => fs₁.writeFile full content

theorem writeResolved_cons (fs : FileSystem) (full : Location) (diff : FileDiff)
    (rest : List (Location × FileDiff)) :
    writeResolved fs ((full, diff) :: rest) =
      match writeOne fs full diff.content with
      | (fs₁, .error e) => (fs₁, .error e)
      | (fs₁, .ok ()) =>
        match writeResolved fs₁ rest with
        | (fs₂, .error e) => (fs₂, .error e)
        | (fs₂, .ok written) => (fs₂, .ok (diff.path :: written)) := by
  rw [writeResolved, writeOne]
  rcases fs.makedirs full.dropLast with ⟨fs₁, e | ⟨⟩⟩ <;> rfl

theorem writeOne_of_blocked (hplain : Plain fs full) (h : Blocked fs.tree full)
    (content : String) : ∃ e, writeOne fs full content = (fs, .error e) := by
  have hup := hplain.dropLast
  rcases h with hdir | ⟨q, old, hq, hne, hfile⟩
  · rw [tree_eq_directory] at hdir
    have habove : fs.lookup full.dropLast = some .directory := by
      by_cases hroot : full.dropLast = full
      · rw [hroot, hdir]
      · exact lookup_of_isPrefix hdir (List.dropLast_prefix full) hroot
    have hmakedirs := makedirsFrom_of_dirs [] hup.1 hup.2 habove
    have htarget := target?_of_lookup hplain.1 hplain.2 hdir
    have hput : fs.put full (.file content) = none := by
      rw [Option.eq_none_iff_forall_ne_some]
      exact fun fs' hput => (cond_of_put hput).2.2 hdir
    refine ⟨.osError "EISDIR, ENOENT or ENOTDIR", ?_⟩
    rw [writeOne, makedirs, hmakedirs]
    simp [writeFile, htarget, hput]
  · rw [tree_eq_file] at hfile
    have hfull : full ≠ [] := by
      rintro rfl
      exact hne (List.prefix_nil.mp hq)
    have hqd := (isPrefix_dropLast_iff hfull).mpr ⟨hq, hne⟩
    obtain ⟨e, hmakedirs⟩ := makedirsFrom_of_file [] hup.1 hup.2 fs.lookup_nil hqd hfile
    exact ⟨e, by rw [writeOne, makedirs, hmakedirs]⟩

theorem writeOne_of_free (hplain : Plain fs full) (h : ¬ Blocked fs.tree full)
    (content : String) : ∃ fs', writeOne fs full content = (fs', .ok ()) ∧
      fs'.tree = write fs.tree full content ∧ fs.SameLinks fs' ∧ fs'.cwd = fs.cwd := by
  have hup := hplain.dropLast
  have hdir : fs.lookup full ≠ some .directory :=
    fun hdir => h (Or.inl (tree_eq_directory.mpr hdir))
  have hne : full ≠ [] := by
    rintro rfl
    exact hdir fs.lookup_nil
  have habove : ∀ q, q <+: full.dropLast ↔ q <+: full ∧ q ≠ full :=
    fun q => isPrefix_dropLast_iff hne
  have hfile : ∀ q old, q <+: full.dropLast → fs.lookup q ≠ some (.file old) := by
    intro q old hq hold
    obtain ⟨hqf, hqne⟩ := (habove q).mp hq
    exact h (Or.inr ⟨q, old, hqf, hqne, tree_eq_file.mpr hold⟩)
  obtain ⟨fs₁, hmakedirs, hlookup⟩ :=
    makedirsFrom_of_noFile [] hup.1 hup.2 fs.lookup_nil hfile
  have hgrows := grows_makedirsFrom fs [] full.dropLast
  rw [hmakedirs] at hgrows
  have hplain₁ := hplain.congr hgrows.sameLinks
  have hsame : fs₁.lookup full = fs.lookup full := by
    rw [hlookup, List.nil_append, if_neg (by simp [habove])]
  have htarget : fs₁.target? full = some full := by
    refine target?_of_dirs hplain₁.1 hplain₁.2 ?_
    intro q hq hqne
    rw [hlookup, List.nil_append, if_pos ((habove q).mpr ⟨hq, hqne⟩)]
  have hparent : fs₁.lookup full.dropLast = some .directory := by simp [hlookup]
  obtain ⟨fs₂, hput⟩ := put_of hne hparent (hsame ▸ hdir) (.file content)
  have hlookup₂ : ∀ q, fs₂.lookup q = if q = full then some (.file content)
      else if q <+: full.dropLast then some .directory else fs.lookup q := by
    intro q
    rw [lookup_put hput, hlookup, List.nil_append]
  refine ⟨fs₂, ?_, ?_, ?_, (cwd_put hput).trans hgrows.cwd⟩
  · rw [writeOne, makedirs, hmakedirs]
    simp [writeFile, htarget, hput]
  · funext q
    rw [write, tree, hlookup₂]
    by_cases hq : q = full
    · simp [hq]
    · by_cases hqf : q <+: full
      · simp [hq, hqf, habove]
      · simp [hq, hqf, habove, tree]
  · intro q target
    rw [hlookup₂]
    split_ifs with hq hqd
    · subst hq
      constructor
      · intro hold
        exact absurd hold (hplain.2 q target List.prefix_rfl)
      · simp
    · constructor
      · intro hold
        exact absurd hold (hup.2 q target hqd)
      · simp
    · rfl

/-- What a resolved batch writes where. -/
def writes (resolved : List (Location × FileDiff)) : List (Location × String) :=
  resolved.map fun x => (x.1, x.2.content)

theorem writeResolved_of_writable {resolved : List (Location × FileDiff)}
    (hplain : ∀ x ∈ resolved, Plain fs x.1) (h : Writable fs.tree (writes resolved)) :
    ∃ fs', writeResolved fs resolved = (fs', .ok (resolved.map fun x => x.2.path)) ∧
      fs'.tree = writeAll fs.tree (writes resolved) ∧ fs.SameLinks fs' ∧ fs'.cwd = fs.cwd := by
  induction resolved generalizing fs with
  | nil => exact ⟨fs, rfl, rfl, .refl fs, rfl⟩
  | cons x rest ih =>
    obtain ⟨full, diff⟩ := x
    obtain ⟨fs₁, hone, htree, hlinks, hcwd⟩ :=
      writeOne_of_free (hplain (full, diff) (by simp)) h.1 diff.content
    have hrest : Writable fs₁.tree (writes rest) := by
      rw [htree]
      exact h.2
    obtain ⟨fs₂, hmore, htree₂, hlinks₂, hcwd₂⟩ :=
      ih (fun y hy => (hplain y (List.mem_cons_of_mem _ hy)).congr hlinks) hrest
    refine ⟨fs₂, ?_, ?_, hlinks.trans hlinks₂, hcwd₂.trans hcwd⟩
    · rw [writeResolved_cons, hone]
      dsimp only
      rw [hmore]
      rfl
    · rw [htree₂, htree]
      rfl

theorem writeResolved_of_stuck {done rest : List (Location × FileDiff)} {x : Location × FileDiff}
    (hplain : ∀ y ∈ done ++ x :: rest, Plain fs y.1) (hdone : Writable fs.tree (writes done))
    (hstuck : Blocked (writeAll fs.tree (writes done)) x.1) :
    ∃ fs' e, writeResolved fs (done ++ x :: rest) = (fs', .error e) ∧
      fs'.tree = writeAll fs.tree (writes done) ∧ fs.SameLinks fs' := by
  induction done generalizing fs with
  | nil =>
    obtain ⟨full, diff⟩ := x
    obtain ⟨e, hone⟩ := writeOne_of_blocked (hplain (full, diff) (by simp)) hstuck diff.content
    exact ⟨fs, e, by rw [List.nil_append, writeResolved_cons, hone], rfl, .refl fs⟩
  | cons y done ih =>
    obtain ⟨full, diff⟩ := y
    obtain ⟨fs₁, hone, htree, hlinks, hcwd⟩ :=
      writeOne_of_free (hplain (full, diff) (by simp)) hdone.1 diff.content
    have hrest : Writable fs₁.tree (writes done) := by
      rw [htree]
      exact hdone.2
    have hstuck₁ : Blocked (writeAll fs₁.tree (writes done)) x.1 := by
      rw [htree]
      exact hstuck
    obtain ⟨fs₂, e, hmore, htree₂, hlinks₂⟩ :=
      ih (fun z hz => (hplain z (List.mem_cons_of_mem _ hz)).congr hlinks) hrest hstuck₁
    refine ⟨fs₂, e, ?_, ?_, hlinks.trans hlinks₂⟩
    · rw [List.cons_append, writeResolved_cons, hone]
      dsimp only
      rw [hmore]
    · rw [htree₂, htree]
      rfl

/-! ### The two operations -/

theorem removePaths_error {paths : List String} {e : PyException}
    (h : (paths.mapM fun p => (resolveSafePath fs workspaceRoot p).map (p, ·)) = .error e) :
    removePaths fs workspaceRoot paths = (fs, .error e) := by
  unfold removePaths
  rw [h]

theorem removePaths_ok {paths : List String} {resolved : List (String × Location)}
    (h : (paths.mapM fun p => (resolveSafePath fs workspaceRoot p).map (p, ·)) = .ok resolved) :
    removePaths fs workspaceRoot paths = removeResolved fs resolved := by
  unfold removePaths
  rw [h]

theorem removePaths_of_refused {paths : List String}
    (h : ∃ p ∈ paths, ¬ Accepted fs workspaceRoot p) :
    ∃ e, removePaths fs workspaceRoot paths = (fs, .error e) := by
  rcases mapM_resolveSafePath id Prod.mk fs workspaceRoot paths with ⟨hall, -⟩ | ⟨-, e, he⟩
  · obtain ⟨p, hp, hrefused⟩ := h
    exact absurd (hall p hp) hrefused
  · exact ⟨e, removePaths_error he⟩

theorem removePaths_eq {paths : List String} (h : ∀ p ∈ paths, Accepted fs workspaceRoot p) :
    removePaths fs workspaceRoot paths =
      removeResolved fs (paths.map fun p => (p, locate fs workspaceRoot p)) := by
  rcases mapM_resolveSafePath id Prod.mk fs workspaceRoot paths with ⟨-, hok⟩ | ⟨⟨p, hp, hno⟩, -⟩
  · exact removePaths_ok hok
  · exact absurd (h p hp) hno

theorem removePaths_of_plain {paths : List String}
    (hplain : ∀ p ∈ paths, Plain fs (locate fs workspaceRoot p))
    (h : ∀ p ∈ paths, Accepted fs workspaceRoot p) :
    ∃ fs' removed, removePaths fs workspaceRoot paths = (fs', .ok removed) ∧
      fs'.tree = erase fs.tree (paths.map (locate fs workspaceRoot)) ∧ fs.SameLinks fs' ∧
      fs'.cwd = fs.cwd := by
  have hall : ∀ x ∈ paths.map fun p => (p, locate fs workspaceRoot p), Plain fs x.2 := by
    rw [List.forall_mem_map]
    intro p hp
    dsimp only
    exact hplain p hp
  obtain ⟨fs', removed, hremove, htree, hlinks, hcwd⟩ := removeResolved_spec hall
  refine ⟨fs', removed, (removePaths_eq h).trans hremove, ?_, hlinks, hcwd⟩
  simp [htree, Function.comp_def]

theorem removePaths_of_accepted {paths : List String}
    (hfree : LinkFree fs (fs.realpath workspaceRoot))
    (h : ∀ p ∈ paths, Accepted fs workspaceRoot p) :
    ∃ fs' removed, removePaths fs workspaceRoot paths = (fs', .ok removed) ∧
      fs'.tree = erase fs.tree (paths.map (locate fs workspaceRoot)) ∧ fs.SameLinks fs' ∧
      fs'.cwd = fs.cwd :=
  removePaths_of_plain (fun p hp => (h p hp).plain hfree) h

/-- Where `remove_paths` returns, every path got past the guard. -/
theorem accepted_of_removePaths {paths removed : List String}
    (h : removePaths fs workspaceRoot paths = (fs', .ok removed)) :
    ∀ p ∈ paths, Accepted fs workspaceRoot p := by
  by_contra hno
  push Not at hno
  obtain ⟨e, hremove⟩ := removePaths_of_refused hno
  cases hremove.symm.trans h

/-- The diffs of a batch at the locations their paths resolve to. -/
def located (fs : FileSystem) (workspaceRoot : String) (diffs : List FileDiff) :
    List (Location × FileDiff) :=
  diffs.map fun diff => (locate fs workspaceRoot diff.path, diff)

@[simp] theorem located_append (fs : FileSystem) (workspaceRoot : String)
    (diffs diffs' : List FileDiff) : located fs workspaceRoot (diffs ++ diffs') =
      located fs workspaceRoot diffs ++ located fs workspaceRoot diffs' :=
  List.map_append

@[simp] theorem located_cons (fs : FileSystem) (workspaceRoot : String) (diff : FileDiff)
    (diffs : List FileDiff) : located fs workspaceRoot (diff :: diffs) =
      (locate fs workspaceRoot diff.path, diff) :: located fs workspaceRoot diffs :=
  List.map_cons

theorem located_congr (h : fs.SameLinks fs') (hcwd : fs'.cwd = fs.cwd) (workspaceRoot : String)
    (diffs : List FileDiff) : located fs workspaceRoot diffs = located fs' workspaceRoot diffs := by
  simp only [located, locate_congr h hcwd]

/-- Every location that a diff leads to holds the last content for it. -/
def HoldsLast (fs : FileSystem) (workspaceRoot : String) (diffs : List FileDiff)
    (fs' : FileSystem) : Prop :=
  ∀ before diff after, diffs = before ++ diff :: after → ∀ loc,
    LeadsTo fs workspaceRoot diff.path loc →
    (∀ later ∈ after, ¬ LeadsTo fs workspaceRoot later.path loc) →
    fs'.contentAt loc = some diff.content

/-- The same about the locations of the batch. -/
theorem holdsLast_iff {diffs : List FileDiff}
    (h : ∀ diff ∈ diffs, Accepted fs workspaceRoot diff.path) :
    HoldsLast fs workspaceRoot diffs fs' ↔ ∀ loc x,
      last Prod.fst (writes (located fs workspaceRoot diffs)) loc = some x →
        fs'.contentAt loc = some x.2 := by
  constructor
  · intro hholds loc x hlast
    obtain ⟨hloc, before, after, hlist, hafter⟩ := last_eq_some_iff.mp hlast
    rw [writes, located, List.map_map, List.map_eq_append_iff] at hlist
    obtain ⟨before, tail, rfl, rfl, htail⟩ := hlist
    obtain ⟨diff, after, rfl, rfl, rfl⟩ := List.map_eq_cons_iff.mp htail
    refine hholds before diff after rfl loc ?_ fun later hlater hlead => ?_
    · exact (leadsTo_iff (h diff (by simp))).mpr hloc
    · exact hafter _ (List.mem_map_of_mem hlater) hlead.locate_eq
  · intro hholds before diff after hdiffs loc hlead hafter
    refine hholds loc (loc, diff.content) (last_eq_some_iff.mpr ⟨rfl,
      writes (located fs workspaceRoot before), writes (located fs workspaceRoot after), ?_, ?_⟩)
    · simp [hdiffs, writes, hlead.locate_eq]
    · intro y hy hyloc
      obtain ⟨x, hx, rfl⟩ := List.mem_map.mp hy
      obtain ⟨later, hlater, rfl⟩ := List.mem_map.mp hx
      have hacc := h later (by simp [hdiffs, hlater])
      exact hafter later hlater ((leadsTo_iff hacc).mpr hyloc)

/-- The ways `apply_diffs` goes on once the workspace directory is there. -/
inductive BatchApplied (fs : FileSystem) (workspaceRoot : String) (diffs : List FileDiff) :
    FsResult (List String) → Prop
  | refused (e : PyException)
      (hrefused : ∃ diff ∈ diffs, ¬ Accepted fs workspaceRoot diff.path) :
      BatchApplied fs workspaceRoot diffs (fs, .error e)
  | stuck (fs' : FileSystem) (e : PyException) (done rest : List FileDiff) (diff : FileDiff)
      (haccepted : ∀ diff ∈ diffs, Accepted fs workspaceRoot diff.path)
      (hdiffs : diffs = done ++ diff :: rest)
      (hdone : Writable fs.tree (writes (located fs workspaceRoot done)))
      (hstuck : Blocked (writeAll fs.tree (writes (located fs workspaceRoot done)))
        (locate fs workspaceRoot diff.path))
      (htree : fs'.tree = writeAll fs.tree (writes (located fs workspaceRoot done)))
      (hlinks : fs.SameLinks fs') :
      BatchApplied fs workspaceRoot diffs (fs', .error e)
  | written (fs' : FileSystem)
      (haccepted : ∀ diff ∈ diffs, Accepted fs workspaceRoot diff.path)
      (hall : Writable fs.tree (writes (located fs workspaceRoot diffs)))
      (htree : fs'.tree = writeAll fs.tree (writes (located fs workspaceRoot diffs)))
      (hlinks : fs.SameLinks fs') :
      BatchApplied fs workspaceRoot diffs (fs', .ok (diffs.map FileDiff.path))

theorem applyDiffs_noRoot {diffs : List FileDiff} {e : PyException}
    (h : fs.makedirsPath workspaceRoot = (fs', .error e)) :
    applyDiffs fs workspaceRoot diffs = (fs', .error e) := by
  rw [applyDiffs, h]

theorem batchApplied (h : fs.makedirsPath workspaceRoot = (fs', .ok ()))
    (hfree : LinkFree fs' (fs'.realpath workspaceRoot)) (diffs : List FileDiff) :
    BatchApplied fs' workspaceRoot diffs (applyDiffs fs workspaceRoot diffs) := by
  rw [applyDiffs, h]
  dsimp only
  rcases mapM_resolveSafePath FileDiff.path (fun diff full => (full, diff)) fs' workspaceRoot
    diffs with ⟨hall, hok⟩ | ⟨hrefused, e, he⟩
  · rw [hok]
    dsimp only
    rw [← located]
    have hplain : ∀ x ∈ located fs' workspaceRoot diffs, Plain fs' x.1 := by
      rw [located, List.forall_mem_map]
      intro diff hdiff
      dsimp only
      exact (hall diff hdiff).plain hfree
    have hsplit : Writable fs'.tree (writes (located fs' workspaceRoot diffs)) ∨
        ∃ done diff rest, diffs = done ++ diff :: rest ∧
          Writable fs'.tree (writes (located fs' workspaceRoot done)) ∧
          Blocked (writeAll fs'.tree (writes (located fs' workspaceRoot done)))
            (locate fs' workspaceRoot diff.path) := by
      rcases writable_or_stuck fs'.tree (writes (located fs' workspaceRoot diffs)) with
        hwritable | ⟨done, x, rest, hlist, hdone, hstuck⟩
      · exact Or.inl hwritable
      · rw [writes, located, List.map_map, List.map_eq_append_iff] at hlist
        obtain ⟨done, tail, rfl, rfl, htail⟩ := hlist
        obtain ⟨diff, rest, rfl, rfl, rfl⟩ := List.map_eq_cons_iff.mp htail
        rw [← List.map_map, ← located, ← writes] at hdone hstuck
        exact Or.inr ⟨done, diff, rest, rfl, hdone, hstuck⟩
    rcases hsplit with hwritable | ⟨done, diff, rest, rfl, hdone, hstuck⟩
    · obtain ⟨fs'', hwrite, htree, hlinks, -⟩ := writeResolved_of_writable hplain hwritable
      have hpaths : ((located fs' workspaceRoot diffs).map fun x => x.2.path) =
          diffs.map FileDiff.path := by
        simp [located, Function.comp_def]
      rw [hwrite, hpaths]
      exact .written fs'' hall hwritable htree hlinks
    · rw [located_append, located_cons] at hplain ⊢
      obtain ⟨fs'', e, hwrite, htree, hlinks⟩ := writeResolved_of_stuck hplain hdone hstuck
      rw [hwrite]
      exact .stuck fs'' e done rest diff hall rfl hdone hstuck htree hlinks
  · rw [he]
    exact .refused e hrefused

end StackMigrate
