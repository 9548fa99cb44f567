import StackMigrate.Library.PathTree
import StackMigrate.Sandbox.Resolution

/-!
# System calls on paths without links

On a canonical path a system call acts on the entry that stands there, and the tree changes
as a tree of files does. Directories may be created on any path; no call that creates them
touches what is there already.
-/

namespace StackMigrate

open KeyedList PathTree

namespace FileSystem

variable {fs fs' fs'' : FileSystem} {loc q : Location} {e : Entry} {name : String}

/-! ### Entries -/

@[simp] theorem lookup_nil (fs : FileSystem) : fs.lookup [] = some .directory := by
  simp [lookup]

theorem put_of (hne : loc ≠ []) (habove : fs.lookup loc.dropLast = some .directory)
    (hdir : fs.lookup loc ≠ some .directory) (e : Entry) : ∃ fs', fs.put loc e = some fs' := by
  rw [put, dif_pos ⟨hne, habove, hdir⟩]
  exact ⟨_, rfl⟩

theorem cond_of_put (h : fs.put loc e = some fs') :
    loc ≠ [] ∧ fs.lookup loc.dropLast = some .directory ∧ fs.lookup loc ≠ some .directory := by
  unfold put at h
  split at h
  · next hcond => exact hcond
  · cases h

theorem lookup_put (h : fs.put loc e = some fs') (q : Location) :
    fs'.lookup q = if q = loc then some e else fs.lookup q := by
  have hcond := cond_of_put h
  rw [put, dif_pos hcond, Option.some.injEq] at h
  subst h
  by_cases hq : q = []
  · rw [hq, lookup_nil, lookup_nil, if_neg (Ne.symm hcond.1)]
  · rw [lookup, lookup, if_neg hq, if_neg hq, lookup_upsert]
    by_cases hql : q = loc
    · simp [hql]
    · simp [hql, Ne.symm hql]

theorem cwd_put (h : fs.put loc e = some fs') : fs'.cwd = fs.cwd := by
  have hcond := cond_of_put h
  rw [put, dif_pos hcond, Option.some.injEq] at h
  subst h
  rfl

theorem lookup_delete (hdir : fs.lookup loc ≠ some .directory) (q : Location) :
    (fs.delete loc).lookup q = if q = loc then none else fs.lookup q := by
  rw [delete, dif_neg hdir]
  by_cases hq : q = []
  · subst hq
    have hne : [] ≠ loc := by
      rintro rfl
      exact hdir fs.lookup_nil
    rw [lookup_nil, lookup_nil, if_neg hne]
  · rw [lookup, lookup, if_neg hq, if_neg hq, lookup_filter_ne]
    split_ifs <;> rfl

theorem cwd_delete (fs : FileSystem) (loc : Location) : (fs.delete loc).cwd = fs.cwd := by
  unfold delete
  split_ifs <;> rfl

/-- Above an entry there are directories. -/
theorem lookup_of_isPrefix (h : fs.lookup loc = some e) (hq : q <+: loc) (hne : q ≠ loc) :
    fs.lookup q = some .directory := by
  induction loc using List.reverseRecOn generalizing e with
  | nil => exact absurd (List.prefix_nil.mp hq) hne
  | append_singleton above name ih =>
    have habove : fs.lookup above = some .directory := by
      by_cases hroot : above = []
      · simp [hroot]
      · have hmem := fs.mem_entries_of_lookup (by simp) h
        have hparent := (fs.parents _ hmem).2
        rw [List.dropLast_concat] at hparent
        exact fs.lookup_of_mem_entries (hparent hroot)
    rcases List.prefix_concat_iff.mp hq with rfl | hq
    · exact absurd rfl hne
    · by_cases hqa : q = above
      · rw [hqa, habove]
      · exact ih habove hq hqa

/-! ### Walking along names -/

variable {follow : Location → List String → Option Location} {links : ℕ} {here path : Location}
  {rest : List String}

/-- One name of a walk that meets no link. -/
theorem pathResolve_cons (hname : IsName name)
    (hlink : ∀ target, fs.lookup (here ++ [name]) ≠ some (.symlink target)) :
    fs.pathResolve links here (name :: rest) =
      if fs.lookup (here ++ [name]) = some .directory then
        fs.pathResolve links (here ++ [name]) rest
      else if rest = [] then some (here ++ [name]) else none := by
  have hstep : ∀ follow, fs.pathWalk follow here (name :: rest) =
      if fs.lookup (here ++ [name]) = some .directory then
        fs.pathWalk follow (here ++ [name]) rest
      else if rest = [] then some (here ++ [name]) else none := by
    intro follow
    rw [pathWalk, if_neg (not_or.mpr ⟨hname.1, hname.2.1⟩), if_neg hname.2.2.1]
    split
    · next target htarget => exact absurd htarget (hlink target)
    · next hdir => rw [if_pos hdir]
    · next hdir => rw [if_neg hdir]
  cases links with
  | zero => exact hstep _
  | succ links => exact hstep _

theorem pathResolve_nil : fs.pathResolve links here [] = some here := by
  cases links <;> rfl

/-- A walk along names ends where they lead, if it ends. -/
theorem pathResolve_proper (links : ℕ) (here : Location) (hrest : Location.IsProper rest)
    (hcan : fs.Canonical (here ++ rest)) :
    fs.pathResolve links here rest = none ∨
      fs.pathResolve links here rest = some (here ++ rest) := by
  induction rest generalizing here with
  | nil => exact Or.inr (by simp [pathResolve_nil])
  | cons name rest ih =>
    have hlink := fun target => hcan (here ++ [name]) target (by simp)
    rw [pathResolve_cons (hrest name (by simp)) hlink]
    split_ifs with hdir hlast
    · have hgo := ih (here ++ [name]) (fun n hn => hrest n (List.mem_cons_of_mem _ hn))
        (by simpa using hcan)
      simpa using hgo
    · exact Or.inr (by rw [hlast])
    · exact Or.inl rfl

/-- It does end where there is something, or something can be created. -/
theorem pathResolve_of_dirs (links : ℕ) (here : Location) (hrest : Location.IsProper rest)
    (hcan : fs.Canonical (here ++ rest))
    (hdirs : ∀ q, q <+: rest → q ≠ rest → fs.lookup (here ++ q) = some .directory) :
    fs.pathResolve links here rest = some (here ++ rest) := by
  induction rest generalizing here with
  | nil => simp [pathResolve_nil]
  | cons name rest ih =>
    have hlink := fun target => hcan (here ++ [name]) target (by simp)
    rw [pathResolve_cons (hrest name (by simp)) hlink]
    by_cases hlast : rest = []
    · subst hlast
      simp [pathResolve_nil]
    · have hdir := hdirs [name] (by simp) (by simpa using Ne.symm hlast)
      rw [if_pos hdir, ih _ (fun n hn => hrest n (List.mem_cons_of_mem _ hn)) (by simpa using hcan)]
      · simp
      · intro q hq hne
        have hq' := hdirs (name :: q) (by simpa using hq) (by simpa using hne)
        simpa using hq'

section Canonical

variable (hproper : loc.IsProper) (hcan : fs.Canonical loc)
include hproper hcan

theorem target?_of_dirs (hdirs : ∀ q, q <+: loc → q ≠ loc → fs.lookup q = some .directory) :
    fs.target? loc = some loc :=
  pathResolve_of_dirs maxSymlinks [] hproper hcan hdirs

theorem target?_of_lookup (h : fs.lookup loc = some e) : fs.target? loc = some loc :=
  target?_of_dirs hproper hcan fun _ hq hne => lookup_of_isPrefix h hq hne

theorem stat_eq_lookup : fs.stat loc = fs.lookup loc := by
  cases hlookup : fs.lookup loc with
  | some e => simp [stat, target?_of_lookup hproper hcan hlookup, hlookup]
  | none =>
    rcases pathResolve_proper maxSymlinks [] hproper hcan with h | h
    · simp [stat, target?, h]
    · simp [stat, target?, h, hlookup]

theorem isDir_iff : fs.isDir loc = true ↔ fs.lookup loc = some .directory := by
  rw [isDir, stat_eq_lookup hproper hcan, decide_eq_true_eq]

theorem isFile_iff : fs.isFile loc = true ↔ ∃ content, fs.lookup loc = some (.file content) := by
  rw [isFile, stat_eq_lookup hproper hcan]
  split <;> simp_all

theorem entryLocation_of_parent (hne : loc ≠ [])
    (habove : fs.lookup loc.dropLast = some .directory) : fs.entryLocation loc = some loc := by
  have htarget := target?_of_lookup hproper.dropLast (hcan.of_isPrefix (List.dropLast_prefix loc))
    habove
  rw [entryLocation, List.getLast?_eq_some_getLast hne]
  simp [htarget, List.dropLast_append_getLast hne]

theorem entryLocation_of_lookup (h : fs.lookup loc = some e) : fs.entryLocation loc = some loc := by
  by_cases hne : loc = []
  · simp [entryLocation, hne]
  · obtain ⟨habove, hstrict⟩ := (isPrefix_dropLast_iff hne).mp List.prefix_rfl
    exact entryLocation_of_parent hproper hcan hne (lookup_of_isPrefix h habove hstrict)

theorem isLink_eq_false : fs.isLink loc = false := by
  unfold isLink
  split
  · next target h =>
    obtain ⟨here, hhere, hlookup⟩ := Option.bind_eq_some_iff.mp h
    by_cases hne : loc = []
    · subst hne
      obtain rfl : [] = here := by simpa [entryLocation] using hhere
      simp at hlookup
    · rw [entryLocation, List.getLast?_eq_some_getLast hne] at hhere
      obtain ⟨above, habove, rfl⟩ := Option.map_eq_some_iff.mp hhere
      rcases pathResolve_proper maxSymlinks [] hproper.dropLast
        (hcan.of_isPrefix (List.dropLast_prefix loc)) with h' | h'
      · cases h'.symm.trans habove
      · obtain rfl : loc.dropLast = above := Option.some.inj (h'.symm.trans habove)
        rw [List.dropLast_append_getLast hne] at hlookup
        exact absurd hlookup (hcan loc target List.prefix_rfl)
  · rfl

end Canonical

/-! ### The tree of files -/

/-- The content of the regular file at a location. -/
def contentAt (fs : FileSystem) (loc : Location) : Option String :=
  match fs.lookup loc with
  | some (.file content) => some content
  | _ => none

/-- Files and directories; links are left out. -/
def tree (fs : FileSystem) : Tree String String := fun loc =>
  match fs.lookup loc with
  | some (.file content) => some (.file content)
  | some .directory => some .directory
  | _ => none

@[simp] theorem tree_eq_file {content : String} :
    fs.tree loc = some (.file content) ↔ fs.lookup loc = some (.file content) := by
  unfold tree
  split <;> simp_all

@[simp] theorem tree_eq_directory :
    fs.tree loc = some .directory ↔ fs.lookup loc = some .directory := by
  unfold tree
  split <;> simp_all

@[simp] theorem contentAt_eq_some {content : String} :
    fs.contentAt loc = some content ↔ fs.lookup loc = some (.file content) := by
  unfold contentAt
  split <;> simp_all

@[simp] theorem fileAt_tree (fs : FileSystem) (loc : Location) :
    fileAt fs.tree loc = fs.contentAt loc := by
  ext content
  simp

theorem Canonical.congr (h : fs.Canonical loc) (hlinks : fs.SameLinks fs') : fs'.Canonical loc :=
  fun q target hq hlookup => h q target hq ((hlinks q target).mpr hlookup)

/-! ### Creating directories -/

/-- Nothing has changed but that directories were created. -/
structure Grows (fs fs' : FileSystem) : Prop where
  entries : ∀ loc, fs'.lookup loc = fs.lookup loc ∨
    fs.lookup loc = none ∧ fs'.lookup loc = some .directory
  cwd : fs'.cwd = fs.cwd

theorem Grows.refl (fs : FileSystem) : fs.Grows fs := ⟨fun _ => Or.inl rfl, rfl⟩

theorem Grows.trans (h : fs.Grows fs') (h' : fs'.Grows fs'') : fs.Grows fs'' := by
  refine ⟨fun loc => ?_, h'.cwd.trans h.cwd⟩
  rcases h.entries loc with hloc | ⟨hnone, hdir⟩
  · rcases h'.entries loc with hloc' | ⟨hnone', hdir'⟩
    · exact Or.inl (hloc'.trans hloc)
    · exact Or.inr ⟨hloc ▸ hnone', hdir'⟩
  · rcases h'.entries loc with hloc' | ⟨hnone', -⟩
    · exact Or.inr ⟨hnone, hloc'.trans hdir⟩
    · cases hdir.symm.trans hnone'

theorem Grows.sameLinks (h : fs.Grows fs') : fs.SameLinks fs' := by
  intro loc target
  rcases h.entries loc with hloc | ⟨hnone, hdir⟩
  · rw [hloc]
  · simp [hnone, hdir]

theorem Grows.kept (h : fs.Grows fs') (loc : Location) : Kept fs.tree fs'.tree loc := by
  rcases h.entries loc with hloc | ⟨hnone, hdir⟩
  · exact Or.inl (by simp [tree, hloc])
  · exact Or.inr ⟨by simp [tree, hnone], by simp [tree, hdir]⟩

/-- Links aside, the tree of files is all there is. -/
theorem lookup_of_tree_eq (hlinks : fs.SameLinks fs') (h : fs'.tree loc = fs.tree loc) :
    fs'.lookup loc = fs.lookup loc := by
  cases hlookup : fs.lookup loc with
  | some e =>
    cases e with
    | symlink target => exact (hlinks loc target).mp hlookup
    | file content => exact tree_eq_file.mp (h.trans (tree_eq_file.mpr hlookup))
    | directory => exact tree_eq_directory.mp (h.trans (tree_eq_directory.mpr hlookup))
  | none =>
    have hnone : fs.tree loc = none := by simp [tree, hlookup]
    rw [hnone] at h
    cases hlookup' : fs'.lookup loc with
    | none => rfl
    | some e =>
      cases e with
      | file content => simp [tree, hlookup'] at h
      | directory => simp [tree, hlookup'] at h
      | symlink target => cases hlookup.symm.trans ((hlinks loc target).mpr hlookup')

/-- What is kept as a tree of files is kept as an entry. -/
theorem lookup_of_kept (hlinks : fs.SameLinks fs') (h : Kept fs.tree fs'.tree loc) :
    fs'.lookup loc = fs.lookup loc ∨ fs.lookup loc = none ∧ fs'.lookup loc = some .directory := by
  rcases h with hsame | ⟨hnone, hdir⟩
  · exact Or.inl (lookup_of_tree_eq hlinks hsame)
  · have hdir' := tree_eq_directory.mp hdir
    cases hlookup : fs.lookup loc with
    | none => exact Or.inr ⟨rfl, hdir'⟩
    | some e =>
      cases e with
      | file content => cases hnone.symm.trans (tree_eq_file.mpr hlookup)
      | directory => cases hnone.symm.trans (tree_eq_directory.mpr hlookup)
      | symlink target => cases hdir'.symm.trans ((hlinks loc target).mp hlookup)

theorem Grows.contentAt (h : fs.Grows fs') (loc : Location) :
    fs'.contentAt loc = fs.contentAt loc := by
  rcases h.entries loc with hloc | ⟨hnone, hdir⟩
  · simp [FileSystem.contentAt, hloc]
  · simp [FileSystem.contentAt, hnone, hdir]

theorem Grows.of_put (h : fs.put loc .directory = some fs') (hnone : fs.lookup loc = none) :
    fs.Grows fs' := by
  refine ⟨fun q => ?_, cwd_put h⟩
  rw [lookup_put h]
  split_ifs with hq
  · exact Or.inr ⟨hq ▸ hnone, rfl⟩
  · exact Or.inl rfl

theorem grows_mkdir (fs : FileSystem) (loc : Location) : fs.Grows (fs.mkdir loc).1 := by
  unfold mkdir
  split
  · exact .refl fs
  · next here _ =>
    split_ifs with hthere
    · exact .refl fs
    · split
      · exact .refl fs
      · next fs' hput => exact .of_put hput (by simpa using hthere)

theorem grows_makedirsFrom (fs : FileSystem) (above : Location) (rest : List String) :
    fs.Grows (fs.makedirsFrom above rest).1 := by
  induction rest generalizing fs above with
  | nil => exact .refl fs
  | cons name rest ih =>
    rw [makedirsFrom]
    split_ifs
    · exact ih fs _
    · have hone := grows_mkdir fs (above ++ [name])
      split
      · next fs' hmkdir =>
        rw [hmkdir] at hone
        exact hone.trans (ih fs' _)
      · next fs' e hmkdir =>
        rw [hmkdir] at hone
        exact hone

theorem grows_makedirsPath (fs : FileSystem) (path : String) :
    fs.Grows (fs.makedirsPath path).1 := by
  unfold makedirsPath
  split_ifs
  · exact .refl fs
  · exact grows_makedirsFrom fs _ _
  · exact grows_makedirsFrom fs _ _

/-! ### Directories on a path without links -/

theorem target?_cons_empty (loc : Location) : fs.target? ("" :: loc) = fs.target? loc := by
  simp [target?, maxSymlinks, pathResolve, pathWalk]

section Calls

variable {content : String}

theorem mkdir_of_none (hproper : loc.IsProper) (hcan : fs.Canonical loc) (hne : loc ≠ [])
    (habove : fs.lookup loc.dropLast = some .directory) (hnone : fs.lookup loc = none) :
    ∃ fs', fs.mkdir loc = (fs', .ok ()) ∧ fs.put loc .directory = some fs' := by
  obtain ⟨fs', hput⟩ := put_of hne habove (by simp [hnone]) .directory
  exact ⟨fs', by simp [mkdir, entryLocation_of_parent hproper hcan hne habove, hnone, hput], hput⟩

theorem mkdir_of_some (hproper : loc.IsProper) (hcan : fs.Canonical loc)
    (h : fs.lookup loc = some e) : ∃ exc, fs.mkdir loc = (fs, .error exc) :=
  ⟨.osError "EEXIST", by simp [mkdir, entryLocation_of_lookup hproper hcan h, h]⟩

theorem makedirsFrom_of_dirs (above : Location) {rest : List String}
    (hproper : Location.IsProper (above ++ rest))
    (hcan : fs.Canonical (above ++ rest))
    (hdir : fs.lookup (above ++ rest) = some .directory) :
    fs.makedirsFrom above rest = (fs, .ok ()) := by
  induction rest generalizing above with
  | nil => rfl
  | cons name rest ih =>
    have hpre : above ++ [name] <+: above ++ name :: rest := by simp
    have hone : fs.lookup (above ++ [name]) = some .directory := by
      by_cases heq : above ++ [name] = above ++ name :: rest
      · rw [heq, hdir]
      · exact lookup_of_isPrefix hdir hpre heq
    have hisDir := (isDir_iff (hproper.of_isPrefix hpre) (hcan.of_isPrefix hpre)).mpr hone
    rw [makedirsFrom, if_pos hisDir]
    exact ih _ (by simpa using hproper) (by simpa using hcan) (by simpa using hdir)

/-- Directories are created as long as no file is in the way. -/
theorem makedirsFrom_of_noFile (above : Location) {rest : List String}
    (hproper : Location.IsProper (above ++ rest))
    (hcan : fs.Canonical (above ++ rest)) (habove : fs.lookup above = some .directory)
    (hfile : ∀ q content, q <+: above ++ rest → fs.lookup q ≠ some (.file content)) :
    ∃ fs', fs.makedirsFrom above rest = (fs', .ok ()) ∧ ∀ q, fs'.lookup q =
      if q <+: above ++ rest then some .directory else fs.lookup q := by
  induction rest generalizing fs above with
  | nil =>
    refine ⟨fs, rfl, fun q => ?_⟩
    split_ifs with hq
    · by_cases hqa : q = above
      · rw [hqa, habove]
      · exact lookup_of_isPrefix habove (by simpa using hq) hqa
    · rfl
  | cons name rest ih =>
    have hpre : above ++ [name] <+: above ++ name :: rest := by simp
    have hpropern := hproper.of_isPrefix hpre
    have hcann := hcan.of_isPrefix hpre
    have hisDir := isDir_iff hpropern hcann
    cases hlookup : fs.lookup (above ++ [name]) with
    | none =>
      obtain ⟨fs₁, hmkdir, hput⟩ := mkdir_of_none hpropern hcann (by simp)
        (by simpa using habove) hlookup
      have hnotDir : ¬ fs.isDir (above ++ [name]) = true := by simp [hisDir, hlookup]
      have hlinks := (Grows.of_put hput hlookup).sameLinks
      have hfile₁ : ∀ q content, q <+: above ++ [name] ++ rest →
          fs₁.lookup q ≠ some (.file content) := by
        intro q content hq
        rw [lookup_put hput]
        split_ifs
        · simp
        · exact hfile q content (by simpa using hq)
      obtain ⟨fs₂, hmore, hlookup₂⟩ := ih (above ++ [name]) (by simpa using hproper)
        (by simpa using hcan.congr hlinks) (by simp [lookup_put hput]) hfile₁
      refine ⟨fs₂, ?_, fun q => ?_⟩
      · rw [makedirsFrom, if_neg hnotDir, hmkdir]
        exact hmore
      · rw [hlookup₂, lookup_put hput, List.append_assoc, List.singleton_append]
        by_cases hq : q = above ++ [name]
        · rw [if_pos (hq ▸ hpre), if_pos (hq ▸ hpre)]
        · rw [if_neg hq]
    | some e =>
      have hdir : fs.lookup (above ++ [name]) = some .directory := by
        cases e with
        | directory => exact hlookup
        | file content => exact absurd hlookup (hfile _ content hpre)
        | symlink target => exact absurd hlookup (hcan _ target hpre)
      obtain ⟨fs₂, hmore, hlookup₂⟩ := ih (above ++ [name]) (by simpa using hproper)
        (by simpa using hcan) hdir (by simpa using hfile)
      refine ⟨fs₂, ?_, by simpa using hlookup₂⟩
      rw [makedirsFrom, if_pos (hisDir.mpr hdir)]
      exact hmore

/-- A file in the way is met before anything is created. -/
theorem makedirsFrom_of_file (above : Location) {rest : List String} {q : Location}
    (hproper : Location.IsProper (above ++ rest)) (hcan : fs.Canonical (above ++ rest))
    (habove : fs.lookup above = some .directory) (hq : q <+: above ++ rest)
    (hfile : fs.lookup q = some (.file content)) :
    ∃ exc, fs.makedirsFrom above rest = (fs, .error exc) := by
  induction rest generalizing above with
  | nil =>
    have hdir : fs.lookup q = some .directory := by
      by_cases hqa : q = above
      · rw [hqa, habove]
      · exact lookup_of_isPrefix habove (by simpa using hq) hqa
    cases hdir.symm.trans hfile
  | cons name rest ih =>
    have hpre : above ++ [name] <+: above ++ name :: rest := by simp
    have hpropern := hproper.of_isPrefix hpre
    have hcann := hcan.of_isPrefix hpre
    by_cases hdir : fs.lookup (above ++ [name]) = some .directory
    · obtain ⟨exc, hmore⟩ := ih (above ++ [name]) (by simpa using hproper)
        (by simpa using hcan) hdir (by simpa using hq)
      refine ⟨exc, ?_⟩
      rw [makedirsFrom, if_pos ((isDir_iff hpropern hcann).mpr hdir)]
      exact hmore
    · -- the file is this very entry: above it everything is a directory
      have hsome : ∃ e, fs.lookup (above ++ [name]) = some e := by
        rcases List.prefix_or_prefix_of_prefix hq hpre with hqn | hnq
        · rcases List.prefix_concat_iff.mp hqn with rfl | hqa
          · exact ⟨_, hfile⟩
          · have hqdir : fs.lookup q = some .directory := by
              by_cases hqa' : q = above
              · rw [hqa', habove]
              · exact lookup_of_isPrefix habove hqa hqa'
            cases hqdir.symm.trans hfile
        · by_cases hnq' : above ++ [name] = q
          · exact ⟨_, hnq' ▸ hfile⟩
          · exact ⟨_, lookup_of_isPrefix hfile hnq hnq'⟩
      obtain ⟨e, he⟩ := hsome
      obtain ⟨exc, hmkdir⟩ := mkdir_of_some hpropern hcann he
      refine ⟨exc, ?_⟩
      rw [makedirsFrom, if_neg (by rwa [isDir_iff hpropern hcann]), hmkdir]

end Calls

/-! ### What no write touches -/

/-- Directories and links are as they were, apart from new directories, and nothing is gone. -/
structure Endures (fs fs' : FileSystem) : Prop where
  directory : ∀ {loc}, fs.lookup loc = some .directory → fs'.lookup loc = some .directory
  some : ∀ {loc}, (fs.lookup loc).isSome → (fs'.lookup loc).isSome
  symlink : ∀ {loc target}, fs'.lookup loc = .some (.symlink target) →
    fs.lookup loc = .some (.symlink target)

theorem Grows.endures (h : fs.Grows fs') : fs.Endures fs' where
  directory := by
    intro loc hdir
    rcases h.entries loc with hloc | ⟨hnone, -⟩
    · exact hloc.trans hdir
    · cases hnone.symm.trans hdir
  some := by
    intro loc hsome
    rcases h.entries loc with hloc | ⟨-, hdir⟩
    · rwa [hloc]
    · rw [hdir]
      rfl
  symlink := fun hlink => (h.sameLinks _ _).mpr hlink

theorem endures_writeFile (fs : FileSystem) (loc : Location) (content : String) :
    fs.Endures (fs.writeFile loc content).1 := by
  unfold writeFile
  split
  · exact (Grows.refl fs).endures
  · next reached htarget =>
    split
    · exact (Grows.refl fs).endures
    · next fs' hput =>
      refine ⟨fun {q} hdir => ?_, fun {q} hsome => ?_, fun {q target} hlink => ?_⟩
      · rw [lookup_put hput, if_neg]
        · exact hdir
        · rintro rfl
          exact (cond_of_put hput).2.2 hdir
      · rw [lookup_put hput]
        split_ifs
        · rfl
        · exact hsome
      · rw [lookup_put hput] at hlink
        split_ifs at hlink
        · cases hlink
        · exact hlink

/-- Writing along names writes to the file they lead to, or raises. -/
theorem writeFile_plain (hproper : loc.IsProper) (hcan : fs.Canonical loc) (content : String) :
    (∃ exc, fs.writeFile loc content = (fs, .error exc)) ∨
      ∃ fs', fs.writeFile loc content = (fs', .ok ()) ∧
        ∀ q, fs'.lookup q = if q = loc then some (.file content) else fs.lookup q := by
  rcases pathResolve_proper maxSymlinks [] hproper hcan with htarget | htarget
  · exact Or.inl ⟨_, by simp only [writeFile, target?, htarget]; rfl⟩
  · rw [List.nil_append] at htarget
    cases hput : fs.put loc (.file content) with
    | none => exact Or.inl ⟨_, by simp only [writeFile, target?, htarget, hput]; rfl⟩
    | some fs' =>
      exact Or.inr ⟨fs', by simp only [writeFile, target?, htarget, hput],
        fun q => lookup_put hput q⟩

end FileSystem

end StackMigrate
