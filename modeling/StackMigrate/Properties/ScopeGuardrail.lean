import StackMigrate.Core.Slugs
import StackMigrate.Library.Lines
import StackMigrate.Nodes.SourceDiscovery
import StackMigrate.Sandbox.Paths

/-!
# Which directories a scope description pulls in

The comment in `discover_files` calls a file an anchor when its own name matches a term. What
is searched is its whole path below the repository, so every directory on the way matches too,
among them `src`, `main` and `java`.
-/

namespace StackMigrate

open Lines

/-! ### Full paths -/

/-- A path that goes on with a slash. -/
def GoesOn (path : String) : Prop := path ≠ "" ∧ endsWith path "/" = false

theorem joinRelative_of_goesOn {path name : String} (h : GoesOn path) :
    joinRelative path name = path ++ "/" ++ name := by
  rw [joinRelative, if_neg h.1, joinPath, if_neg (by simp [h.2])]

theorem endsWith_slash_iff {path : String} :
    endsWith path "/" = true ↔ ∃ init, path.toList = init ++ ['/'] := by
  rw [endsWith, List.isSuffixOf_iff_suffix]
  constructor
  · rintro ⟨init, hinit⟩
    exact ⟨init, hinit.symm⟩
  · rintro ⟨init, hinit⟩
    exact ⟨init, hinit.symm⟩

theorem goesOn_append {name : String} (h : IsName name) (path : String) :
    GoesOn (path ++ name) := by
  obtain ⟨hne, -, -, hslash⟩ := h
  refine ⟨fun hempty => hne (String.append_eq_empty_iff.mp hempty).2, ?_⟩
  rw [Bool.eq_false_iff]
  intro hend
  obtain ⟨init, hinit⟩ := endsWith_slash_iff.mp hend
  rw [String.toList_append] at hinit
  have hlast := congrArg List.getLast? hinit
  rw [List.getLast?_append_of_ne_nil _ (by simpa using hne), List.getLast?_concat] at hlast
  exact hslash (List.mem_of_getLast? hlast)

theorem goesOn_joinRelative {name : String} (h : IsName name) (path : String) :
    GoesOn (joinRelative path name) := by
  rw [joinRelative]
  split_ifs
  · simpa using goesOn_append h ""
  · rw [joinPath]
    split_ifs
    · exact goesOn_append h path
    · exact goesOn_append h (path ++ "/")

theorem goesOn_joinNames {names : List String} (h : ∀ name ∈ names, IsName name)
    (hne : names ≠ []) (path : String) : GoesOn (joinNames path names) := by
  obtain ⟨init, last, rfl⟩ := (List.eq_nil_or_concat names).resolve_left hne
  rw [joinNames, List.concat_eq_append, List.foldl_append]
  exact goesOn_joinRelative (h last (by simp)) _

variable {path name : String}

theorem ne_slash_of_mem (h : IsName name) : ∀ c ∈ name.toList, (c != '/') = true := by
  intro c hc
  rw [bne_iff_ne]
  rintro rfl
  exact h.2.2.2 hc

theorem basename_joinRelative (hpath : GoesOn path) (h : IsName name) :
    basename (joinRelative path name) = name := by
  have hreverse : (path.toList ++ '/' :: name.toList).reverse =
      name.toList.reverse ++ '/' :: path.toList.reverse := by
    simp
  have htake : (path.toList ++ '/' :: name.toList).rtakeWhile (· != '/') = name.toList := by
    rw [List.rtakeWhile, hreverse, List.takeWhile_append_of_pos (by simpa using ne_slash_of_mem h),
      List.takeWhile_cons_of_neg (by simp), List.append_nil, List.reverse_reverse]
  rw [joinRelative_of_goesOn hpath, basename]
  apply String.toList_injective
  simpa using htake

theorem dirname_joinRelative (hpath : GoesOn path) (h : IsName name) :
    dirname (joinRelative path name) = path := by
  have hreverse : (path.toList ++ '/' :: name.toList).reverse =
      name.toList.reverse ++ '/' :: path.toList.reverse := by
    simp
  have hhead : (joinRelative path name).toList.rdropWhile (· != '/') = path.toList ++ ['/'] := by
    rw [joinRelative_of_goesOn hpath]
    have hlist : (path ++ "/" ++ name).toList = path.toList ++ '/' :: name.toList := by simp
    rw [hlist, List.rdropWhile, hreverse,
      List.dropWhile_append_of_pos (by simpa using ne_slash_of_mem h),
      List.dropWhile_cons_of_neg (by simp)]
    simp
  have hkept : path.toList.rdropWhile (· == '/') = path.toList := by
    rw [List.rdropWhile_eq_self_iff]
    intro hne hlast
    have hend := endsWith_slash_iff.mpr ⟨path.toList.dropLast, by
      conv_lhs => rw [← List.dropLast_append_getLast hne, beq_iff_eq.mp hlast]⟩
    exact absurd hend (by simp [hpath.2])
  have hsome : ¬ (path.toList ++ ['/']).all (· == '/') = true := by
    intro hall
    have hnil : path.toList.rdropWhile (· == '/') = [] := by
      rw [List.rdropWhile_eq_nil_iff]
      intro c hc
      exact List.all_eq_true.mp hall c (List.mem_append_left _ hc)
    exact hpath.1 (String.toList_eq_nil_iff.mp (hkept ▸ hnil))
  rw [dirname, hhead, if_neg hsome, List.rdropWhile_concat_pos _ _ _ (by simp), hkept,
    String.ofList_toList]

/-! ### The candidates -/

section Walk

variable [UnicodeData]

theorem isName_of_mem_walkBelow {entries : Listing} {dir found : List String}
    {filenames : List FileName} (hdir : ∀ name ∈ dir, IsName name)
    (h : (found, filenames) ∈ entries.walkBelow dir) :
    dir <+: found ∧ ∀ name ∈ found, IsName name := by
  induction entries generalizing dir with
  | nil => cases h
  | file _ rest ih => exact ih hdir h
  | linked _ rest ih => exact ih hdir h
  | directory name entries rest ihEntries ihRest =>
    have hbelow : ∀ name' ∈ dir ++ [name.val], IsName name' := by
      intro name' hname'
      rcases List.mem_append.mp hname' with hname' | hname'
      · exact hdir name' hname'
      · obtain rfl := List.mem_singleton.mp hname'
        exact name.property
    rw [Listing.walkBelow] at h
    rcases List.mem_append.mp h with h | h
    · split_ifs at h
      · cases h
      · rcases List.mem_cons.mp h with h | h
        · obtain ⟨rfl, -⟩ := Prod.mk.inj h
          exact ⟨List.prefix_append _ _, hbelow⟩
        · obtain ⟨hpre, hnames⟩ := ihEntries hbelow h
          exact ⟨(List.prefix_append dir [name.val]).trans hpre, hnames⟩
    · exact ihRest hdir h

theorem isName_of_mem_walk {entries : Listing} {dir found : List String}
    {filenames : List FileName} (hdir : ∀ name ∈ dir, IsName name)
    (h : (found, filenames) ∈ entries.walk dir) :
    dir <+: found ∧ ∀ name ∈ found, IsName name := by
  rcases List.mem_cons.mp h with h | h
  · obtain ⟨rfl, -⟩ := Prod.mk.inj h
    exact ⟨List.prefix_rfl, hdir⟩
  · exact isName_of_mem_walkBelow hdir h

omit [UnicodeData] in
theorem isName_javaSourceRoot : ∀ name ∈ javaSourceRoot, IsName name := by
  unfold IsName
  decide

/-- A candidate, by the directory that the walk was in. -/
structure FoundIn (repo : SourceRepo) (dir : List String) (filename : FileName) : Prop where
  walked : ∃ entries, repo.javaRoot = some entries ∧
    ∃ filenames, (dir, filenames) ∈ entries.walk javaSourceRoot ∧ filename ∈ filenames
  isJava : endsWith filename.val ".java" = true

variable {repo : SourceRepo} {dir : List String} {filename : FileName} {c : Candidate}

theorem mem_candidates : c ∈ repo.candidates ↔
    ∃ dir filename, FoundIn repo dir filename ∧ candidateAt repo.repoRoot dir filename = c := by
  rw [SourceRepo.candidates]
  split
  · rename_i hnone
    simp only [List.not_mem_nil, false_iff]
    rintro ⟨dir, filename, ⟨⟨entries, hsome, -⟩, -⟩, -⟩
    cases hnone.symm.trans hsome
  · rename_i entries hentries
    rw [List.mem_flatMap]
    constructor
    · rintro ⟨⟨dir, filenames⟩, hwalk, hmem⟩
      obtain ⟨filename, hfilename, rfl⟩ := List.mem_map.mp hmem
      obtain ⟨hfile, hjava⟩ := List.mem_filter.mp hfilename
      exact ⟨dir, filename, ⟨⟨entries, hentries, filenames, hwalk, hfile⟩, hjava⟩, rfl⟩
    · rintro ⟨dir, filename, ⟨⟨entries', hsome, filenames, hwalk, hfile⟩, hjava⟩, rfl⟩
      obtain rfl := Option.some.inj (hentries.symm.trans hsome)
      exact ⟨(dir, filenames), hwalk, List.mem_map.mpr
        ⟨filename, List.mem_filter.mpr ⟨hfile, hjava⟩, rfl⟩⟩

namespace FoundIn

theorem names (h : FoundIn repo dir filename) :
    javaSourceRoot <+: dir ∧ ∀ name ∈ dir, IsName name := by
  obtain ⟨entries, -, filenames, hwalk, -⟩ := h.walked
  exact isName_of_mem_walk isName_javaSourceRoot hwalk

theorem goesOn (h : FoundIn repo dir filename) : GoesOn (joinNames repo.repoRoot dir) := by
  refine goesOn_joinNames h.names.2 ?_ repo.repoRoot
  rintro rfl
  exact absurd h.names.1 (by decide)

theorem basename_eq (h : FoundIn repo dir filename) :
    basename (candidateAt repo.repoRoot dir filename).fullPath = filename.val :=
  basename_joinRelative h.goesOn filename.property

theorem dirname_eq (h : FoundIn repo dir filename) :
    dirname (candidateAt repo.repoRoot dir filename).fullPath = joinNames repo.repoRoot dir :=
  dirname_joinRelative h.goesOn filename.property

end FoundIn

end Walk

/-! ### The selection -/

/-- The two readings of a file's own name. -/
inductive OwnName
  | filename
  /-- Without the extension `.java`. -/
  | className

def OwnName.of : OwnName → String → String
  | .filename, path => basename path
  | .className, path =>
    String.ofList ((basename path).toList.take ((basename path).length - ".java".length))

section Selection

variable [UnicodeData]

/-- A scope term occurs in the text, upper and lower case aside. -/
def Mentions (scopeTerms : List String) (text : String) : Prop :=
  ∃ term ∈ scopeTerms, isSubstring (UnicodeData.lower term) (UnicodeData.lower text) = true

/-- A directory with a candidate whose own name a scope term occurs in. -/
def NameAnchored (own : OwnName) (repo : SourceRepo) (scopeTerms : List String) (dir : String) :
    Prop :=
  ∃ c ∈ repo.candidates, dirname c.fullPath = dir ∧ Mentions scopeTerms (own.of c.fullPath)

/-- Every file that was discovered lies beside one whose own name matches. -/
def ScopeKept (own : OwnName) (repo : SourceRepo) (scopeDescription : String) : Prop :=
  ∀ file ∈ discoverFiles repo scopeDescription,
    NameAnchored own repo (extractScopeTerms scopeDescription) (dirname file.path)

/-- In a directory with a readable candidate, a term does not occur in the relative path of a
candidate unless one occurs in the own name of a candidate. -/
def MatchedByName (own : OwnName) (repo : SourceRepo) (scopeTerms : List String) : Prop :=
  ∀ c ∈ repo.candidates, (repo.readFile c.fullPath).isSome → ∀ other ∈ repo.candidates,
    dirname other.fullPath = dirname c.fullPath → Mentions scopeTerms other.relativePath →
    NameAnchored own repo scopeTerms (dirname c.fullPath)

variable {repo : SourceRepo} {scopeDescription : String} {c : Candidate} {file : DiscoveredFile}

theorem matchesScope_iff {relativePath filename : String} {scopeTerms : List String} :
    matchesScope relativePath filename scopeTerms = true ↔ Mentions scopeTerms relativePath := by
  simp [matchesScope, Mentions]

theorem mem_selectedPaths {candidates : List Candidate} {scopeTerms : List String}
    (hterms : scopeTerms ≠ []) (hc : c ∈ candidates) :
    c.fullPath ∈ selectedPaths candidates scopeTerms ↔ ∃ anchor ∈ candidates,
      dirname anchor.fullPath = dirname c.fullPath ∧ Mentions scopeTerms anchor.relativePath := by
  have hanchor : ∀ dir, dir ∈ (candidates.filter fun c =>
      matchesScope c.relativePath (basename c.fullPath) scopeTerms).map (fun c =>
        dirname c.fullPath) ↔
      ∃ anchor ∈ candidates, dirname anchor.fullPath = dir ∧
        Mentions scopeTerms anchor.relativePath := by
    intro dir
    simp only [List.mem_map, List.mem_filter, matchesScope_iff]
    exact exists_congr fun anchor => by tauto
  rw [selectedPaths, if_neg (by simpa using hterms), ← hanchor]
  constructor
  · intro hmem
    obtain ⟨twin, htwin, hpath⟩ := List.mem_map.mp hmem
    rw [← hpath]
    exact of_decide_eq_true (List.mem_filter.mp htwin).2
  · intro hdir
    exact List.mem_map.mpr ⟨c, List.mem_filter.mpr ⟨hc, decide_eq_true hdir⟩, rfl⟩

theorem mem_discoverFiles (hterms : extractScopeTerms scopeDescription ≠ []) :
    file ∈ discoverFiles repo scopeDescription ↔ ∃ c ∈ repo.candidates,
      (∃ anchor ∈ repo.candidates, dirname anchor.fullPath = dirname c.fullPath ∧
        Mentions (extractScopeTerms scopeDescription) anchor.relativePath) ∧
      ∃ content, repo.readFile c.fullPath = some content ∧
        file = ⟨c.fullPath, c.relativePath, guessKind content, content⟩ := by
  rw [discoverFiles, List.mem_filterMap]
  refine exists_congr fun c => and_congr_right fun hc => ?_
  rw [← mem_selectedPaths hterms hc]
  split_ifs with hselected
  · simp only [hselected, true_and, Option.map_eq_some_iff]
    exact exists_congr fun content => and_congr_right fun _ => eq_comm
  · simp [hselected]

/-- The files that are discovered lie beside a file named by the scope if and only if no
directory is matched without one. -/
theorem scope_kept_iff (own : OwnName) (repo : SourceRepo) (scopeDescription : String)
    (hterms : extractScopeTerms scopeDescription ≠ []) :
    ScopeKept own repo scopeDescription ↔
      MatchedByName own repo (extractScopeTerms scopeDescription) := by
  constructor
  · intro hkept c hc hreadable other hother hdir hmentions
    obtain ⟨content, hcontent⟩ := Option.isSome_iff_exists.mp hreadable
    have hfile : (⟨c.fullPath, c.relativePath, guessKind content, content⟩ : DiscoveredFile) ∈
        discoverFiles repo scopeDescription :=
      (mem_discoverFiles hterms).mpr
        ⟨c, hc, ⟨other, hother, hdir, hmentions⟩, content, hcontent, rfl⟩
    have hanchored := hkept _ hfile
    exact hanchored
  · intro hnamed file hfile
    obtain ⟨c, hc, ⟨other, hother, hdir, hmentions⟩, content, hcontent, rfl⟩ :=
      (mem_discoverFiles hterms).mp hfile
    exact hnamed c hc (by simp [hcontent]) other hother hdir hmentions

end Selection

section Shop

attribute [local instance] asciiTables

def javaFile (name : String) (rest : Listing)
    (h : IsName name := by unfold IsName; decide) : Listing :=
  .file ⟨name, h⟩ rest

def package (name : String) (entries rest : Listing)
    (h : IsName name := by unfold IsName; decide) : Listing :=
  .directory ⟨name, h⟩ entries rest

/-- A shop with two packages that have nothing to do with each other. -/
def shop : SourceRepo where
  repoRoot := "/shop"
  javaRoot := some <|
    package "billing" (javaFile "InvoiceController.java" .nil) <|
    package "orders" (javaFile "OrderController.java" (javaFile "OrderService.java" .nil)) .nil
  readFile _ := some "public class"

theorem shop_scope_kept :
    ScopeKept .filename shop "migrate the OrderController module only" :=
  (scope_kept_iff .filename shop _ (by decide +kernel)).mpr
    (by unfold MatchedByName NameAnchored Mentions; decide +kernel)

/-- The invoices come along, though no file beside them is named by the scope. -/
theorem main_takes_billing :
    extractScopeTerms "migrate the OrderController of Main" = ["OrderController", "Main"] ∧
    (discoverFiles shop "migrate the OrderController of Main").map DiscoveredFile.relativePath =
      ["src/main/java/billing/InvoiceController.java",
        "src/main/java/orders/OrderController.java", "src/main/java/orders/OrderService.java"] ∧
    ∀ own ∈ [OwnName.filename, OwnName.className],
      ¬ ScopeKept own shop "migrate the OrderController of Main" := by
  refine ⟨by decide +kernel, by decide +kernel, ?_⟩
  unfold ScopeKept NameAnchored Mentions
  decide +kernel

end Shop

/-! ### Directories as terms -/

section Components

variable [UnicodeData] {scopeDescription : String} {repo : SourceRepo}

theorem notMem_slash_of_term {term : String} (h : term ∈ extractScopeTerms scopeDescription) :
    '/' ∉ (UnicodeData.lower term).toList := by
  obtain ⟨token, htoken, rfl⟩ := List.mem_map.mp h
  have halnum : ∀ c ∈ token, c.isAlphanum = true := by
    have hcapitalized := (List.mem_filter.mp htoken).2
    cases token with
    | nil => simp
    | cons first others =>
      simp only [isCapitalizedToken, Bool.and_eq_true, List.all_eq_true] at hcapitalized
      intro c hc
      rcases List.mem_cons.mp hc with rfl | hc
      · change ((c.isUpper || c.isLower) || c.isDigit) = true
        simp [hcapitalized.1.1]
      · exact hcapitalized.1.2 c hc
  rw [UnicodeData.lower_ascii _ (by simpa using fun c hc => toNat_lt_of_isAlphanum (halnum c hc)),
    String.toList_ofList, String.toList_ofList]
  intro hslash
  obtain ⟨c, hc, hlower⟩ := List.mem_map.mp hslash
  have hslug := isSlugChar_toLower (halnum c hc)
  rw [hlower] at hslug
  exact absurd hslug (by decide)

/-- What `str.lower` makes of a letter depends on the word it is in at most. -/
def LowersSegments : Prop :=
  ∀ a b : String, UnicodeData.lower (a ++ "/" ++ b) =
    UnicodeData.lower a ++ "/" ++ UnicodeData.lower b

theorem toList_lower_relpath (hlower : LowersSegments) {names : List String} (hne : names ≠ []) :
    (UnicodeData.lower (relpath names)).toList =
      ['/'].intercalate (names.map fun name => (UnicodeData.lower name).toList) := by
  induction names with
  | nil => exact absurd rfl hne
  | cons name names ih =>
    by_cases hnames : names = []
    · subst hnames
      simp [relpath]
    · rw [relpath, String.intercalate_cons_of_ne_nil hnames, hlower, String.toList_append,
        String.toList_append, ← relpath, ih hnames, List.map_cons,
        List.intercalate_cons_of_ne_nil (by simpa using hnames)]
      rfl

/-- A term occurs in a relative path if and only if it occurs in one of its names. -/
theorem mentions_relpath_iff (hlower : LowersSegments) {names : List String} (hne : names ≠ []) :
    Mentions (extractScopeTerms scopeDescription) (relpath names) ↔
      ∃ name ∈ names, Mentions (extractScopeTerms scopeDescription) name := by
  have hterm : ∀ term ∈ extractScopeTerms scopeDescription,
      (isSubstring (UnicodeData.lower term) (UnicodeData.lower (relpath names)) = true ↔
        ∃ name ∈ names, isSubstring (UnicodeData.lower term) (UnicodeData.lower name) = true) := by
    intro term hterm
    simp only [isSubstring, decide_eq_true_eq]
    rw [toList_lower_relpath hlower hne,
      infix_intercalate_iff (notMem_slash_of_term hterm) (by simpa using hne)]
    simp
  constructor
  · rintro ⟨term, hmem, hsub⟩
    obtain ⟨name, hname, hsub⟩ := (hterm term hmem).mp hsub
    exact ⟨name, hname, term, hmem, hsub⟩
  · rintro ⟨name, hname, term, hmem, hsub⟩
    exact ⟨term, hmem, (hterm term hmem).mpr ⟨name, hname, hsub⟩⟩

omit [UnicodeData] in
theorem splitOnChar_joinNames {names : List String} (h : ∀ name ∈ names, IsName name)
    {path : String} (hpath : GoesOn path) :
    splitOnChar (joinNames path names) '/' = splitOnChar path '/' ++ names := by
  induction names generalizing path with
  | nil => simp [joinNames]
  | cons name names ih =>
    have hname := h name List.mem_cons_self
    rw [joinNames, List.foldl_cons, ← joinNames,
      ih (fun name' hmem => h name' (List.mem_cons_of_mem _ hmem)) (goesOn_joinRelative hname path),
      joinRelative_of_goesOn hpath, splitOnChar_append, splitOnChar_of_notMem hname.2.2.2,
      List.append_assoc, List.singleton_append]

/-- Two directories of the walk with one path are one. -/
theorem FoundIn.dir_injective {dir dir' : List String} {filename filename' : FileName}
    (h : FoundIn repo dir filename) (h' : FoundIn repo dir' filename')
    (hpath : joinNames repo.repoRoot dir = joinNames repo.repoRoot dir') : dir = dir' := by
  obtain ⟨⟨below, rfl⟩, hnames⟩ := h.names
  obtain ⟨⟨below', rfl⟩, hnames'⟩ := h'.names
  have hroot := goesOn_joinNames isName_javaSourceRoot (by decide) repo.repoRoot
  have hjoin : ∀ names, joinNames repo.repoRoot (javaSourceRoot ++ names) =
      joinNames (joinNames repo.repoRoot javaSourceRoot) names :=
    fun names => List.foldl_append ..
  rw [hjoin, hjoin] at hpath
  have hsplit := congrArg (splitOnChar · '/') hpath
  rw [splitOnChar_joinNames (fun name hmem => hnames name (List.mem_append_right _ hmem)) hroot,
    splitOnChar_joinNames (fun name hmem => hnames' name (List.mem_append_right _ hmem)) hroot]
    at hsplit
  rw [List.append_cancel_left hsplit]

/-- Said of the directories: one with a readable candidate, and with a term in one of the names
that lead to it from the repository, has a candidate that is named so itself. -/
theorem matchedByName_iff (hlower : LowersSegments) :
    MatchedByName .filename repo (extractScopeTerms scopeDescription) ↔
      ∀ dir filename, FoundIn repo dir filename →
        (repo.readFile (candidateAt repo.repoRoot dir filename).fullPath).isSome →
        (∃ name ∈ dir, Mentions (extractScopeTerms scopeDescription) name) →
        NameAnchored .filename repo (extractScopeTerms scopeDescription)
          (joinNames repo.repoRoot dir) := by
  constructor
  · rintro hmatched dir filename hfound hreadable ⟨name, hname, hmentions⟩
    have hmem := mem_candidates.mpr ⟨dir, filename, hfound, rfl⟩
    rw [← hfound.dirname_eq]
    exact hmatched _ hmem hreadable _ hmem rfl ((mentions_relpath_iff hlower (by simp)).mpr
      ⟨name, List.mem_append_left _ hname, hmentions⟩)
  · intro hdirs c hc hreadable other hother hdir hmentions
    obtain ⟨dir, filename, hfound, rfl⟩ := mem_candidates.mp hc
    obtain ⟨dir', filename', hfound', rfl⟩ := mem_candidates.mp hother
    obtain ⟨name, hname, hmentions⟩ := (mentions_relpath_iff hlower (by simp)).mp hmentions
    rcases List.mem_append.mp hname with hname | hname
    · rw [hfound'.dirname_eq, hfound.dirname_eq] at hdir
      rw [hfound.dirname_eq]
      obtain rfl := hfound'.dir_injective hfound hdir
      exact hdirs dir' filename hfound hreadable ⟨name, hname, hmentions⟩
    · obtain rfl := List.mem_singleton.mp hname
      exact ⟨_, hother, hdir, by rwa [OwnName.of, hfound'.basename_eq]⟩

/-- A term that occurs in `src`, `main` or `java` takes in the whole tree. -/
theorem discovered_of_common_component (hlower : LowersSegments)
    (hcommon : ∃ name ∈ javaSourceRoot, Mentions (extractScopeTerms scopeDescription) name)
    {c : Candidate} (hc : c ∈ repo.candidates) {content : String}
    (hcontent : repo.readFile c.fullPath = some content) :
    ⟨c.fullPath, c.relativePath, guessKind content, content⟩ ∈
      discoverFiles repo scopeDescription := by
  obtain ⟨name, hname, hmentions⟩ := hcommon
  have hterms : extractScopeTerms scopeDescription ≠ [] := by
    obtain ⟨term, hterm, -⟩ := hmentions
    exact List.ne_nil_of_mem hterm
  obtain ⟨dir, filename, hfound, rfl⟩ := mem_candidates.mp hc
  rw [mem_discoverFiles hterms]
  refine ⟨_, hc, ⟨_, hc, rfl, ?_⟩, content, hcontent, rfl⟩
  exact (mentions_relpath_iff hlower (by simp)).mpr
    ⟨name, List.mem_append_left _ (hfound.names.1.subset hname), hmentions⟩

end Components

end StackMigrate
