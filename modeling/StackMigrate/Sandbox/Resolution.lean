import StackMigrate.Sandbox.Paths

/-!
# What `realpath` returns

Where no link is met, resolving a path is normalising it. In general the result is free of
links unless a loop was met, and it depends on nothing but the links of the tree. The fuel of
the model is never used up.
-/

namespace StackMigrate

/-- Segments as splitting at slashes leaves them. -/
def SlashFree (segments : List String) : Prop := ∀ seg ∈ segments, '/' ∉ seg.toList

theorem slashFree_splitOnChar (s : String) : SlashFree (splitOnChar s '/') :=
  fun _ hseg => notMem_of_mem_splitOnChar hseg

theorem SlashFree.tail {name : String} {rest : List String} (h : SlashFree (name :: rest)) :
    SlashFree rest :=
  fun seg hseg => h seg (List.mem_cons_of_mem _ hseg)

/-- The ways a path can go on. -/
theorem SlashFree.head {name : String} {rest : List String} (h : SlashFree (name :: rest)) :
    (name = "" ∨ name = ".") ∨ name = ".." ∨ IsName name := by
  by_cases hskip : name = "" ∨ name = "."
  · exact Or.inl hskip
  · by_cases hup : name = ".."
    · exact Or.inr (Or.inl hup)
    · rw [not_or] at hskip
      exact Or.inr (Or.inr ⟨hskip.1, hskip.2, hup, h name (by simp)⟩)

def Entry.isSymlink : Entry → Bool
  | symlink _ => true
  | _ => false

namespace FileSystem

variable {fs fs' : FileSystem} {follow : Location → List String → SeenLinks → Resolution}
  {path : Location} {name target : String} {rest : List String} {seen : SeenLinks}

/-! ### Normalising -/

theorem normalize_skip (h : name = "" ∨ name = ".") :
    normalize path (name :: rest) = normalize path rest := by
  rw [normalize, if_pos h]

theorem normalize_up : normalize path (".." :: rest) = normalize path.dropLast rest := by
  simp [normalize]

theorem normalize_down (h : IsName name) :
    normalize path (name :: rest) = normalize (path ++ [name]) rest := by
  rw [normalize, if_neg (not_or.mpr ⟨h.1, h.2.1⟩), if_neg h.2.2.1]

/-- Names are appended as they are. -/
theorem normalize_append {loc : Location} (h : loc.IsProper) :
    normalize path (loc ++ rest) = normalize (path ++ loc) rest := by
  induction loc generalizing path with
  | nil => simp
  | cons name loc ih =>
    rw [List.cons_append, normalize_down (h name (by simp)),
      ih fun n hn => h n (List.mem_cons_of_mem _ hn)]
    simp

theorem normalize_proper {loc : Location} (h : loc.IsProper) :
    normalize path loc = path ++ loc := by
  rw [← List.append_nil loc, normalize_append h, List.append_nil]
  rfl

theorem isProper_normalize (hpath : path.IsProper) (hrest : SlashFree rest) :
    (normalize path rest).IsProper := by
  induction rest generalizing path with
  | nil => exact hpath
  | cons name rest ih =>
    rcases hrest.head with hskip | rfl | hname
    · rw [normalize_skip hskip]
      exact ih hpath hrest.tail
    · rw [normalize_up]
      exact ih hpath.dropLast hrest.tail
    · rw [normalize_down hname]
      exact ih (hpath.append fun n hn => List.mem_singleton.mp hn ▸ hname) hrest.tail

theorem isProper_joinRest (hpath : path.IsProper) (hrest : SlashFree rest) :
    (joinRest path rest).IsProper := by
  unfold joinRest
  split
  · exact isProper_normalize (fun _ hn => absurd hn (by simp)) hrest.tail
  · exact isProper_normalize hpath hrest

/-! ### One segment of a path -/

theorem walk_skip (h : name = "" ∨ name = ".") :
    fs.walk follow path (name :: rest) seen = fs.walk follow path rest seen := by
  rw [walk, if_pos h]

theorem walk_up :
    fs.walk follow path (".." :: rest) seen = fs.walk follow path.dropLast rest seen := by
  simp [walk]

theorem walk_down (h : IsName name)
    (hlink : ∀ target, fs.lookup (path ++ [name]) ≠ some (.symlink target)) :
    fs.walk follow path (name :: rest) seen = fs.walk follow (path ++ [name]) rest seen := by
  rw [walk, if_neg (not_or.mpr ⟨h.1, h.2.1⟩), if_neg h.2.2.1]
  split
  · next target htarget => exact absurd htarget (hlink target)
  · rfl

/-- Where the target of a link is walked from. -/
def linkStart (path : Location) (target : String) : Location :=
  if startsWith target "/" then [] else path

/-- What becomes of a path that meets a link. -/
def walkLink (fs : FileSystem) (follow : Location → List String → SeenLinks → Resolution)
    (path : Location) (name target : String) (rest : List String) (seen : SeenLinks) :
    Resolution :=
  match seen.lookup (path ++ [name]) with
  | some (some resolved) => fs.walk follow resolved rest seen
  | some none => ⟨joinRest (path ++ [name]) rest, false, seen⟩
  | none =>
    let r :=
      follow (linkStart path target) (splitOnChar target '/') ((path ++ [name], none) :: seen)
    if r.ok then fs.walk follow r.path rest ((path ++ [name], some r.path) :: r.seen)
    else ⟨joinRest r.path rest, false, r.seen⟩

theorem walk_link (h : IsName name) (hlink : fs.lookup (path ++ [name]) = some (.symlink target)) :
    fs.walk follow path (name :: rest) seen =
      walkLink fs follow path name target rest seen := by
  rw [walk, if_neg (not_or.mpr ⟨h.1, h.2.1⟩), if_neg h.2.2.1, hlink]
  rfl

/-! ### Without links -/

/-- There are no links at all. -/
def NoSymlinks (fs : FileSystem) : Prop := ∀ loc target, fs.lookup loc ≠ some (.symlink target)

theorem noSymlinks_of_entries (h : (fs.entries.any fun e => e.2.isSymlink) = false) :
    fs.NoSymlinks := by
  intro loc target hlookup
  have hne : loc ≠ [] := by
    rintro rfl
    simp [lookup] at hlookup
  have hmem := fs.mem_entries_of_lookup hne hlookup
  have hany : (fs.entries.any fun e => e.2.isSymlink) = true :=
    List.any_eq_true.mpr ⟨_, hmem, rfl⟩
  rw [h] at hany
  cases hany

theorem walk_of_noSymlinks (h : fs.NoSymlinks) (hrest : SlashFree rest) :
    fs.walk follow path rest seen = ⟨normalize path rest, true, seen⟩ := by
  induction rest generalizing path with
  | nil => rfl
  | cons name rest ih =>
    rcases hrest.head with hskip | rfl | hname
    · rw [walk_skip hskip, normalize_skip hskip, ih hrest.tail]
    · rw [walk_up, normalize_up, ih hrest.tail]
    · rw [walk_down hname (h _), normalize_down hname, ih hrest.tail]

theorem resolve_of_noSymlinks (h : fs.NoSymlinks) (hrest : SlashFree rest) :
    fs.resolve path rest = ⟨normalize path rest, true, []⟩ :=
  walk_of_noSymlinks h hrest

/-! ### What every step preserves -/

/-- What holds of all links resolved so far. -/
def SeenAll (P : Location → Prop) (seen : SeenLinks) : Prop :=
  ∀ loc resolved, seen.lookup loc = some (some resolved) → P resolved

theorem SeenAll.cons {P : Location → Prop} (h : SeenAll P seen) (loc : Location)
    {x : Option Location} (hx : ∀ resolved, x = some resolved → P resolved) :
    SeenAll P ((loc, x) :: seen) := by
  intro loc' resolved hlookup
  rw [List.lookup_cons] at hlookup
  split at hlookup
  · exact hx resolved (by simpa using hlookup)
  · exact h loc' resolved hlookup

/-- `P` for a path that is resolved in full, `Q` for what is returned at a loop. -/
def Resolution.Meets (P Q : Location → Prop) (r : Resolution) : Prop :=
  if r.ok then P r.path ∧ SeenAll P r.seen else Q r.path

theorem joinRealpath_rule {P Q : Location → Prop} (hroot : P [])
    (hup : ∀ p, P p → P p.dropLast)
    (hdown : ∀ p name, P p → IsName name →
      (∀ target, fs.lookup (p ++ [name]) ≠ some (.symlink target)) → P (p ++ [name]))
    (hstop : ∀ p rest, P p → SlashFree rest → Q (joinRest p rest))
    (hloop : ∀ p name rest, P p → IsName name → SlashFree rest → Q (joinRest (p ++ [name]) rest))
    (hrejoin : ∀ q rest, Q q → SlashFree rest → Q (joinRest q rest))
    (fuel : ℕ) (hpath : P path) (hrest : SlashFree rest) (hseen : SeenAll P seen) :
    (fs.joinRealpath fuel path rest seen).Meets P Q := by
  induction fuel generalizing path rest seen with
  | zero => simpa [Resolution.Meets, joinRealpath] using hstop path rest hpath hrest
  | succ fuel ihfuel =>
    rw [joinRealpath]
    induction rest generalizing path seen with
    | nil => exact ⟨hpath, hseen⟩
    | cons name rest ih =>
      rcases hrest.head with hskip | rfl | hname
      · rw [walk_skip hskip]
        exact ih hpath hrest.tail hseen
      · rw [walk_up]
        exact ih (hup path hpath) hrest.tail hseen
      · by_cases hlink : ∃ target, fs.lookup (path ++ [name]) = some (.symlink target)
        · obtain ⟨target, htarget⟩ := hlink
          rw [walk_link hname htarget, walkLink]
          split
          · next resolved hknown => exact ih (hseen _ _ hknown) hrest.tail hseen
          · exact hloop path name rest hpath hname hrest.tail
          · have hstart : P (linkStart path target) := by
              unfold linkStart
              split_ifs
              · exact hroot
              · exact hpath
            have htargetPath := ihfuel hstart (slashFree_splitOnChar target)
              (hseen.cons (path ++ [name]) (x := none) (by simp))
            dsimp only
            rw [Resolution.Meets] at htargetPath
            split_ifs at htargetPath ⊢ with hok
            · exact ih htargetPath.1 hrest.tail
                (htargetPath.2.cons _ fun resolved h => Option.some.inj h ▸ htargetPath.1)
            · exact hrejoin _ rest htargetPath hrest.tail
        · rw [walk_down hname (not_exists.mp hlink)]
          exact ih (hdown path name hpath hname (not_exists.mp hlink)) hrest.tail hseen

theorem seenAll_nil {P : Location → Prop} : SeenAll P [] := by
  intro loc resolved h
  simp at h

theorem isProper_nil : Location.IsProper [] := by
  intro name h
  simp at h

theorem isProper_concat (hpath : path.IsProper) (hname : IsName name) :
    Location.IsProper (path ++ [name]) :=
  hpath.append fun _ hn => List.mem_singleton.mp hn ▸ hname

theorem isProper_resolve (hpath : path.IsProper) (hrest : SlashFree rest) :
    (fs.resolve path rest).path.IsProper := by
  have hmeets : (fs.resolve path rest).Meets Location.IsProper Location.IsProper := by
    refine joinRealpath_rule isProper_nil (fun p hp => hp.dropLast)
      (fun p name hp hname _ => isProper_concat hp hname)
      (fun p rest hp hr => isProper_joinRest hp hr)
      (fun p name rest hp hname hr => isProper_joinRest (isProper_concat hp hname) hr)
      (fun q rest hq hr => isProper_joinRest hq hr) _ hpath hrest seenAll_nil
  rw [Resolution.Meets] at hmeets
  split_ifs at hmeets with hok
  · exact hmeets.1
  · exact hmeets

theorem isProper_realpath (fs : FileSystem) (path : String) : (fs.realpath path).IsProper := by
  refine isProper_resolve ?_ (slashFree_splitOnChar path)
  split_ifs
  · exact isProper_nil
  · exact fs.cwd_names

/-- No link stands at the location or above it. -/
def Canonical (fs : FileSystem) (loc : Location) : Prop :=
  ∀ q target, q <+: loc → fs.lookup q ≠ some (.symlink target)

theorem Canonical.of_isPrefix {loc q : Location} (h : fs.Canonical loc) (hq : q <+: loc) :
    fs.Canonical q :=
  fun r target hr => h r target (hr.trans hq)

theorem canonical_nil (fs : FileSystem) : fs.Canonical [] := by
  intro q target hq
  rw [List.prefix_nil.mp hq]
  simp [lookup]

theorem Canonical.concat (h : fs.Canonical path)
    (hname : ∀ target, fs.lookup (path ++ [name]) ≠ some (.symlink target)) :
    fs.Canonical (path ++ [name]) := by
  intro q target hq
  rcases List.prefix_concat_iff.mp hq with rfl | hq
  · exact hname target
  · exact h q target hq

/-- What comes out of a path without a loop of links is free of links. -/
theorem canonical_resolve (hpath : fs.Canonical path) (hrest : SlashFree rest)
    (hok : (fs.resolve path rest).ok = true) : fs.Canonical (fs.resolve path rest).path := by
  have hmeets : (fs.resolve path rest).Meets fs.Canonical (fun _ => True) := by
    refine joinRealpath_rule (canonical_nil fs)
      (fun p hp => hp.of_isPrefix (List.dropLast_prefix p))
      (fun p name hp _ hlink => hp.concat hlink) ?_ ?_ ?_ _ hpath hrest seenAll_nil
    all_goals
      intros
      trivial
  rw [Resolution.Meets, if_pos hok] at hmeets
  exact hmeets.1

/-! ### Nothing but the links matters -/

def SameLinks (fs fs' : FileSystem) : Prop :=
  ∀ loc target, fs.lookup loc = some (.symlink target) ↔ fs'.lookup loc = some (.symlink target)

theorem SameLinks.refl (fs : FileSystem) : fs.SameLinks fs := fun _ _ => Iff.rfl

theorem SameLinks.trans {fs'' : FileSystem} (h : fs.SameLinks fs') (h' : fs'.SameLinks fs'') :
    fs.SameLinks fs'' :=
  fun loc target => (h loc target).trans (h' loc target)

theorem walk_congr {follow' : Location → List String → SeenLinks → Resolution}
    (h : fs.SameLinks fs')
    (hfollow : ∀ path rest seen, SlashFree rest → follow path rest seen = follow' path rest seen)
    (hrest : SlashFree rest) : fs.walk follow path rest seen = fs'.walk follow' path rest seen := by
  induction rest generalizing path seen with
  | nil => rfl
  | cons name rest ih =>
    rcases hrest.head with hskip | rfl | hname
    · rw [walk_skip hskip, walk_skip hskip, ih hrest.tail]
    · rw [walk_up, walk_up, ih hrest.tail]
    · by_cases hlink : ∃ target, fs.lookup (path ++ [name]) = some (.symlink target)
      · obtain ⟨target, htarget⟩ := hlink
        rw [walk_link hname htarget, walk_link hname ((h _ _).mp htarget), walkLink, walkLink,
          hfollow _ _ _ (slashFree_splitOnChar target)]
        split
        · exact ih hrest.tail
        · rfl
        · dsimp only
          split_ifs
          · exact ih hrest.tail
          · rfl
      · have hlink' : ∀ target, fs'.lookup (path ++ [name]) ≠ some (.symlink target) :=
          fun target htarget => hlink ⟨target, (h _ _).mpr htarget⟩
        rw [walk_down hname (not_exists.mp hlink), walk_down hname hlink', ih hrest.tail]

theorem joinRealpath_congr (h : fs.SameLinks fs') (fuel : ℕ) (hrest : SlashFree rest) :
    fs.joinRealpath fuel path rest seen = fs'.joinRealpath fuel path rest seen := by
  induction fuel generalizing path rest seen with
  | zero => rfl
  | succ fuel ih => exact walk_congr h (fun path rest seen hrest => ih hrest) hrest

/-- The entries whose link is not met yet. -/
def unseen (fs : FileSystem) (seen : SeenLinks) : ℕ :=
  (fs.entries.filter fun e => (seen.lookup e.1).isNone).length

/-- Whatever is met stays met. -/
def SeenGrows (seen seen' : SeenLinks) : Prop :=
  ∀ loc, seen'.lookup loc = none → seen.lookup loc = none

theorem SeenGrows.refl (seen : SeenLinks) : SeenGrows seen seen := fun _ h => h

theorem SeenGrows.trans {seen' seen'' : SeenLinks} (h : SeenGrows seen seen')
    (h' : SeenGrows seen' seen'') : SeenGrows seen seen'' :=
  fun loc hloc => h loc (h' loc hloc)

theorem SeenGrows.cons {seen' : SeenLinks} (h : SeenGrows seen seen')
    (x : Location × Option Location) : SeenGrows seen (x :: seen') := by
  intro loc hloc
  refine h loc ?_
  rw [List.lookup_cons] at hloc
  split at hloc
  · cases hloc
  · exact hloc

theorem seenGrows_joinRealpath (fuel : ℕ) (hrest : SlashFree rest) :
    SeenGrows seen (fs.joinRealpath fuel path rest seen).seen := by
  induction fuel generalizing path rest seen with
  | zero => exact fun _ h => h
  | succ fuel ihfuel =>
    rw [joinRealpath]
    induction rest generalizing path seen with
    | nil => exact fun _ h => h
    | cons name rest ih =>
      rcases hrest.head with hskip | rfl | hname
      · rw [walk_skip hskip]
        exact ih hrest.tail
      · rw [walk_up]
        exact ih hrest.tail
      · by_cases hlink : ∃ target, fs.lookup (path ++ [name]) = some (.symlink target)
        · obtain ⟨target, htarget⟩ := hlink
          rw [walk_link hname htarget, walkLink]
          split
          · exact ih hrest.tail
          · exact fun _ h => h
          · have hfollow : SeenGrows seen (fs.joinRealpath fuel (linkStart path target)
                (splitOnChar target '/') ((path ++ [name], none) :: seen)).seen :=
              ((SeenGrows.refl seen).cons _).trans (ihfuel (slashFree_splitOnChar target))
            dsimp only
            split_ifs
            · exact (hfollow.cons _).trans (ih hrest.tail)
            · exact hfollow
        · rw [walk_down hname (not_exists.mp hlink)]
          exact ih hrest.tail

theorem unseen_mono {seen' : SeenLinks} (h : SeenGrows seen seen') :
    fs.unseen seen' ≤ fs.unseen seen := by
  refine List.Sublist.length_le (List.monotone_filter_right _ fun e he => ?_)
  rw [Option.isNone_iff_eq_none] at he ⊢
  exact h e.1 he

/-- A link that is entered is unseen no longer. -/
theorem unseen_lt {loc : Location} (hlink : fs.lookup loc = some (.symlink target))
    (hseen : seen.lookup loc = none) : fs.unseen ((loc, none) :: seen) < fs.unseen seen := by
  have hne : loc ≠ [] := by
    rintro rfl
    simp [lookup] at hlink
  have hmem := fs.mem_entries_of_lookup hne hlink
  have hkept : (fs.entries.filter fun e => (List.lookup e.1 ((loc, none) :: seen)).isNone) =
      (fs.entries.filter fun e => (seen.lookup e.1).isNone).filter fun e => e.1 ≠ loc := by
    rw [List.filter_filter]
    refine List.filter_congr fun e _ => ?_
    by_cases he : e.1 = loc
    · simp [he]
    · have hbeq : (e.1 == loc) = false := by simpa using he
      simp [List.lookup_cons, he, hbeq]
  rw [unseen, unseen, hkept, List.length_filter_lt_length_iff_exists]
  exact ⟨_, List.mem_filter.mpr ⟨hmem, by simp [hseen]⟩, by simp⟩

/-- More fuel than links to meet makes no difference. -/
theorem joinRealpath_succ {fuel : ℕ} (hfuel : fs.unseen seen < fuel) (hrest : SlashFree rest) :
    fs.joinRealpath fuel path rest seen = fs.joinRealpath (fuel + 1) path rest seen := by
  induction fuel generalizing path rest seen with
  | zero => omega
  | succ fuel ihfuel =>
    rw [joinRealpath, joinRealpath]
    induction rest generalizing path seen with
    | nil => rfl
    | cons name rest ih =>
      rcases hrest.head with hskip | rfl | hname
      · rw [walk_skip hskip, walk_skip hskip, ih hfuel hrest.tail]
      · rw [walk_up, walk_up, ih hfuel hrest.tail]
      · by_cases hlink : ∃ target, fs.lookup (path ++ [name]) = some (.symlink target)
        · obtain ⟨target, htarget⟩ := hlink
          rw [walk_link hname htarget, walk_link hname htarget, walkLink, walkLink]
          split
          · exact ih hfuel hrest.tail
          · rfl
          · next hnew =>
            have hless := unseen_lt htarget hnew
            have hfollow : fs.joinRealpath fuel (linkStart path target) (splitOnChar target '/')
                ((path ++ [name], none) :: seen) = fs.joinRealpath (fuel + 1)
                  (linkStart path target) (splitOnChar target '/')
                  ((path ++ [name], none) :: seen) :=
              ihfuel (by omega) (slashFree_splitOnChar target)
            have hgrows : SeenGrows seen (fs.joinRealpath (fuel + 1) (linkStart path target)
                (splitOnChar target '/') ((path ++ [name], none) :: seen)).seen :=
              ((SeenGrows.refl seen).cons _).trans
                (seenGrows_joinRealpath (fuel + 1) (slashFree_splitOnChar target))
            dsimp only
            rw [hfollow]
            split_ifs
            · exact ih (lt_of_le_of_lt (unseen_mono (hgrows.cons _)) hfuel) hrest.tail
            · rfl
        · rw [walk_down hname (not_exists.mp hlink), walk_down hname (not_exists.mp hlink),
            ih hfuel hrest.tail]

theorem unseen_le (fs : FileSystem) (seen : SeenLinks) : fs.unseen seen ≤ fs.entries.length :=
  List.length_filter_le _ _

/-- The fuel of `resolve` is not used up. -/
theorem resolve_eq_joinRealpath {fuel : ℕ} (hfuel : fs.entries.length < fuel)
    (hrest : SlashFree rest) : fs.resolve path rest = fs.joinRealpath fuel path rest [] := by
  induction fuel, Nat.succ_le_of_lt hfuel using Nat.le_induction with
  | base => rfl
  | succ fuel hle ih =>
    have hless : fs.unseen [] < fuel := lt_of_le_of_lt (fs.unseen_le []) hle
    rw [ih hle, joinRealpath_succ hless hrest]

/-- Trees with the same links resolve every path in the same way. -/
theorem resolve_congr (h : fs.SameLinks fs') (hrest : SlashFree rest) :
    fs.resolve path rest = fs'.resolve path rest := by
  have hfuel : fs.entries.length < fs.entries.length + fs'.entries.length + 1 := by omega
  have hfuel' : fs'.entries.length < fs.entries.length + fs'.entries.length + 1 := by omega
  rw [resolve_eq_joinRealpath hfuel hrest, resolve_eq_joinRealpath hfuel' hrest,
    joinRealpath_congr h _ hrest]

theorem realpath_congr (h : fs.SameLinks fs') (hcwd : fs'.cwd = fs.cwd) (path : String) :
    fs.realpath path = fs'.realpath path := by
  rw [realpath, realpath, hcwd, resolve_congr h (slashFree_splitOnChar path)]

end FileSystem

end StackMigrate
