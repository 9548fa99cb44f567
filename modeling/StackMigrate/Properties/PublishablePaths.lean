import StackMigrate.Core.Slugs
import StackMigrate.Core.Text
import StackMigrate.Graph.Diffs
import StackMigrate.Graph.Replay
import StackMigrate.Sandbox.Batches
import Mathlib.Data.List.TakeWhile

/-!
# What the publishable-path check lets through

The check means to accept segments of ASCII letters, digits and `_.-`. Its class of word
characters is that of all scripts, and its end anchor also matches in front of a final newline.
Either way what it accepts is a plain relative path, which the workspace guard resolves to the
root followed by its segments.
-/

namespace StackMigrate

open KeyedList FileSystem

/-! ### The grammar -/

/-- A character of `[A-Za-z0-9_.-]`. -/
def IsPathChar (c : Char) : Prop := c.isAlphanum = true ∨ c = '_' ∨ c = '.' ∨ c = '-'

def asciiLower (s : String) : String := String.ofList (s.toList.map Char.toLower)

structure IsSegment (seg : String) : Prop where
  nonempty : seg ≠ ""
  chars : ∀ c ∈ seg.toList, IsPathChar c
  noDots : seg ≠ "." ∧ seg ≠ ".."
  noGit : asciiLower seg ≠ ".git" ∧ asciiLower seg ≠ ".github"

/-- Segments joined by single slashes; the last one names no metadata file of git. -/
def PublishableGrammar (path : String) : Prop :=
  ∃ above last, path = String.intercalate "/" (above ++ [last]) ∧
    (∀ seg ∈ above ++ [last], IsSegment seg) ∧
    asciiLower last ≠ ".gitmodules" ∧ asciiLower last ≠ ".gitattributes"

section Tables

variable [UnicodeData] {path : String} {c : Char}

/-- The tests of the code, one after the other. -/
structure PassesTests (path : String) : Prop where
  /-- Word characters of any script, dots, slashes and hyphens, a final newline aside. -/
  chars : ∃ body, (path = body ∨ path = body ++ "\n") ∧ body ≠ "" ∧
    ∀ c ∈ body.toList, isSafeChar c = true
  segments : ∀ seg ∈ splitOnChar path '/', seg ≠ "" ∧ seg ≠ "." ∧ seg ≠ ".."
  noGit : ∀ seg ∈ splitOnChar path '/', UnicodeData.lower seg ∉ forbiddenSegments
  noMetadata : ∀ last ∈ (splitOnChar path '/').getLast?, UnicodeData.lower last ∉ forbiddenFiles

/-- Accepted against the grammar: there is a character outside ASCII, or a final newline. -/
def SlipsThrough (path : String) : Prop :=
  ((∃ c ∈ path.toList, 128 ≤ c.toNat) ∨ endsWith path "\n") ∧ PassesTests path

/-! ### The tests -/

theorem isSafeChar_ascii (h : c.toNat < 128) :
    isSafeChar c = true ↔ IsPathChar c ∨ c = '/' := by
  simp only [isSafeChar, isWordChar, UnicodeData.isAlnum_ascii c h, IsPathChar, Bool.or_eq_true,
    beq_iff_eq]
  tauto

theorem isSafeChar_newline : isSafeChar '\n' = false := by
  rw [isSafeChar, isWordChar, UnicodeData.isAlnum_ascii _ (by decide)]
  decide

theorem matchesSafeChars_iff : matchesSafeChars path = true ↔
    ∃ body, (path = body ∨ path = body ++ "\n") ∧ body ≠ "" ∧
      ∀ c ∈ body.toList, isSafeChar c = true := by
  constructor
  · intro h
    simp only [matchesSafeChars, Bool.and_eq_true, Bool.not_eq_true', Bool.or_eq_true, beq_iff_eq,
      List.isEmpty_iff, List.isEmpty_eq_false_iff] at h
    obtain ⟨hne, hrest⟩ := h
    have hsplit := List.takeWhile_append_dropWhile (p := isSafeChar) (l := path.toList)
    refine ⟨String.ofList (path.toList.takeWhile isSafeChar), ?_, ?_, ?_⟩
    · refine hrest.imp (fun hnil => ?_) fun hnewline => ?_
      · exact String.toList_injective (by simpa [hnil] using hsplit.symm)
      · exact String.toList_injective (by simpa [hnewline] using hsplit.symm)
    · exact fun hempty => hne (by simpa using congrArg String.toList hempty)
    · simpa using fun c hc => List.mem_takeWhile_imp hc
  · rintro ⟨body, hpath, hne, hsafe⟩
    have htail : ∃ tail, path.toList = body.toList ++ tail ∧ (tail = [] ∨ tail = ['\n']) := by
      rcases hpath with rfl | rfl
      · exact ⟨[], by simp, Or.inl rfl⟩
      · exact ⟨['\n'], by simp, Or.inr rfl⟩
    obtain ⟨tail, hlist, htail⟩ := htail
    have hstop : tail.takeWhile isSafeChar = [] ∧ tail.dropWhile isSafeChar = tail := by
      rcases htail with rfl | rfl
      · exact ⟨rfl, rfl⟩
      · simp [isSafeChar_newline]
    have hbody : body.toList ≠ [] := fun hnil => hne (String.toList_injective (by simpa using hnil))
    rw [matchesSafeChars, hlist, List.takeWhile_append_of_pos hsafe,
      List.dropWhile_append_of_pos hsafe, hstop.1, hstop.2]
    rcases htail with rfl | rfl <;> simp [hbody]

/-- The characters that pass, in a path that does. -/
theorem PassesTests.mem_chars (h : PassesTests path) (hc : c ∈ path.toList) :
    isSafeChar c = true ∨ c = '\n' := by
  obtain ⟨body, hpath, -, hsafe⟩ := h.chars
  rcases hpath with rfl | rfl
  · exact Or.inl (hsafe c hc)
  · rw [String.toList_append, List.mem_append] at hc
    exact hc.imp (hsafe c) fun hc => by simpa using hc

theorem PassesTests.not_mem (h : PassesTests path) (hascii : c.toNat < 128)
    (hchar : ¬ (IsPathChar c ∨ c = '/')) (hnewline : c ≠ '\n') : c ∉ path.toList := by
  intro hc
  rcases h.mem_chars hc with hsafe | rfl
  · exact hchar ((isSafeChar_ascii hascii).mp hsafe)
  · exact hnewline rfl

/-- A path that passes does not begin with a slash. -/
theorem PassesTests.relative (h : PassesTests path) : startsWith path "/" = false := by
  rw [Bool.eq_false_iff]
  intro hstart
  obtain ⟨rest, rfl⟩ := startsWith_iff.mp hstart
  have hsplit : splitOnChar ("/" ++ rest) '/' = "" :: splitOnChar rest '/' := by
    have happend := splitOnChar_append "" rest
    rwa [String.empty_append, splitOnChar_of_notMem (s := "") (by simp)] at happend
  exact (h.segments "" (by simp [hsplit])).1 rfl

theorem publishablePathProblem_eq_none_iff :
    publishablePathProblem path = none ↔ PassesTests path := by
  constructor
  · intro h
    unfold publishablePathProblem at h
    split_ifs at h with hfirst hchars
    dsimp only at h
    split_ifs at h with hsegments hgit hfiles
    refine ⟨matchesSafeChars_iff.mp hchars, ?_, ?_, ?_⟩
    · intro seg hseg
      have hno := mt (fun hmem => List.any_eq_true.mpr ⟨seg, hseg, hmem⟩) hsegments
      simpa using hno
    · intro seg hseg
      have hno := mt (fun hmem => List.any_eq_true.mpr ⟨_, List.mem_map_of_mem hseg, hmem⟩) hgit
      simpa using hno
    · intro last hlast
      rw [List.getLast?_map, hlast] at hfiles
      simpa using hfiles
  · intro h
    have hchars := matchesSafeChars_iff.mpr h.chars
    have hfirst : ¬ (path = "" ∨ startsWith path "/" = true ∨ '\\' ∈ path.toList) := by
      rintro (rfl | hstart | hback)
      · obtain ⟨body, hpath, hne, -⟩ := h.chars
        rcases hpath with rfl | hpath
        · exact hne rfl
        · simpa using congrArg String.toList hpath
      · rw [h.relative] at hstart
        cases hstart
      · exact h.not_mem (by decide) (by unfold IsPathChar; decide) (by decide) hback
    unfold publishablePathProblem
    rw [if_neg hfirst, if_neg (not_not.mpr hchars)]
    dsimp only
    have hsegments : ¬ (splitOnChar path '/').any (fun seg => seg ∈ ["", ".", ".."]) = true := by
      rw [List.any_eq_true]
      rintro ⟨seg, hseg, hmem⟩
      have hno := h.segments seg hseg
      simp [hno] at hmem
    have hgit : ¬ ((splitOnChar path '/').map UnicodeData.lower).any
        (fun seg => seg ∈ forbiddenSegments) = true := by
      rw [List.any_eq_true]
      rintro ⟨lowered, hlowered, hmem⟩
      obtain ⟨seg, hseg, rfl⟩ := List.mem_map.mp hlowered
      exact h.noGit seg hseg (by simpa using hmem)
    have hfiles : ¬ ((splitOnChar path '/').map UnicodeData.lower).getLast?.any
        (fun seg => seg ∈ forbiddenFiles) = true := by
      rw [List.getLast?_map]
      cases hlast : (splitOnChar path '/').getLast? with
      | none => simp
      | some last => simpa using h.noMetadata last hlast
    rw [if_neg hsegments, if_neg hgit, if_neg hfiles]

/-! ### Tests and grammar -/

omit [UnicodeData] in
theorem ascii_of_isPathChar (h : IsPathChar c) : c.toNat < 128 := by
  rcases h with halnum | rfl | rfl | rfl
  · exact toNat_lt_of_isAlphanum halnum
  all_goals decide

theorem lower_of_ascii {seg : String} (h : ∀ c ∈ seg.toList, c.toNat < 128) :
    UnicodeData.lower seg = asciiLower seg :=
  UnicodeData.lower_ascii seg h

omit [UnicodeData] in
theorem PublishableGrammar.chars (h : PublishableGrammar path) :
    ∀ c ∈ path.toList, IsPathChar c ∨ c = '/' := by
  obtain ⟨above, last, hpath, hsegments, -, -⟩ := h
  intro c hc
  by_cases hslash : c = '/'
  · exact Or.inr hslash
  · rw [hpath, mem_toList_intercalate hslash] at hc
    obtain ⟨seg, hseg, hmem⟩ := hc
    exact Or.inl ((hsegments seg hseg).chars c hmem)

omit [UnicodeData] in
theorem PublishableGrammar.ascii (h : PublishableGrammar path) :
    ∀ c ∈ path.toList, c.toNat < 128 := by
  intro c hc
  rcases h.chars c hc with hchar | rfl
  · exact ascii_of_isPathChar hchar
  · decide

/-- What the grammar derives passes every test. -/
theorem PublishableGrammar.passes (h : PublishableGrammar path) : PassesTests path := by
  have hchars := h.chars
  have hascii := h.ascii
  obtain ⟨above, last, hpath, hsegments, hmodules, hattributes⟩ := h
  have hsplit : splitOnChar path '/' = above ++ [last] := by
    rw [hpath, splitOnChar_intercalate (by simp)]
    intro seg hseg hslash
    exact absurd ((hsegments seg hseg).chars '/' hslash) (by unfold IsPathChar; decide)
  have hlower : ∀ seg ∈ above ++ [last], UnicodeData.lower seg = asciiLower seg :=
    fun seg hseg => lower_of_ascii fun c hc =>
      ascii_of_isPathChar ((hsegments seg hseg).chars c hc)
  refine ⟨⟨path, Or.inl rfl, ?_, ?_⟩, ?_, ?_, ?_⟩
  · rintro rfl
    have hempty : above ++ [last] = [""] := by
      rw [← hsplit]
      decide
    exact (hsegments "" (by simp [hempty])).nonempty rfl
  · exact fun c hc => (isSafeChar_ascii (hascii c hc)).mpr (hchars c hc)
  · rw [hsplit]
    exact fun seg hseg => ⟨(hsegments seg hseg).nonempty, (hsegments seg hseg).noDots⟩
  · rw [hsplit]
    intro seg hseg
    rw [hlower seg hseg]
    simpa [forbiddenSegments] using (hsegments seg hseg).noGit
  · rw [hsplit]
    intro seg hseg
    obtain rfl : last = seg := by simpa using hseg
    rw [hlower last (by simp)]
    simpa [forbiddenFiles] using ⟨hmodules, hattributes⟩

/-- What passes is derived by the grammar, if it is ASCII and does not end in a newline. -/
theorem PassesTests.grammar (h : PassesTests path) (hascii : ∀ c ∈ path.toList, c.toNat < 128)
    (hend : ¬ endsWith path "\n") : PublishableGrammar path := by
  have hne : splitOnChar path '/' ≠ [] := by simp [splitOnChar]
  have hjoin := intercalate_splitOnChar path
  have hmem : ∀ seg ∈ splitOnChar path '/', ∀ c ∈ seg.toList, c ∈ path.toList := by
    intro seg hseg c hc
    have hslash : c ≠ '/' := fun e => notMem_of_mem_splitOnChar hseg (e ▸ hc)
    rw [← hjoin, mem_toList_intercalate hslash]
    exact ⟨seg, hseg, hc⟩
  have hchars : ∀ c ∈ path.toList, IsPathChar c ∨ c = '/' := by
    obtain ⟨body, hpath, -, hsafe⟩ := h.chars
    rcases hpath with rfl | rfl
    · exact fun c hc => (isSafeChar_ascii (hascii c hc)).mp (hsafe c hc)
    · exact absurd (by simp [endsWith]) hend
  have hlower : ∀ seg ∈ splitOnChar path '/', UnicodeData.lower seg = asciiLower seg :=
    fun seg hseg => lower_of_ascii fun c hc => hascii c (hmem seg hseg c hc)
  have hsegment : ∀ seg ∈ splitOnChar path '/', IsSegment seg := by
    intro seg hseg
    have hgit := h.noGit seg hseg
    rw [hlower seg hseg] at hgit
    refine ⟨(h.segments seg hseg).1, ?_, (h.segments seg hseg).2, ?_⟩
    · intro c hc
      exact (hchars c (hmem seg hseg c hc)).resolve_right fun e =>
        notMem_of_mem_splitOnChar hseg (e ▸ hc)
    · simpa [forbiddenSegments] using hgit
  have hlast := h.noMetadata _ (List.getLast?_eq_some_getLast hne)
  rw [hlower _ (List.getLast_mem hne)] at hlast
  refine ⟨(splitOnChar path '/').dropLast, (splitOnChar path '/').getLast hne, ?_, ?_, ?_⟩
  · rw [List.dropLast_append_getLast hne, hjoin]
  · rwa [List.dropLast_append_getLast hne]
  · simpa [forbiddenFiles] using hlast

/-- The grammar is what passes, without the two slips. -/
theorem publishableGrammar_iff : PublishableGrammar path ↔
    PassesTests path ∧ (∀ c ∈ path.toList, c.toNat < 128) ∧ ¬ endsWith path "\n" := by
  constructor
  · intro h
    refine ⟨h.passes, h.ascii, ?_⟩
    intro hend
    rw [endsWith, List.isSuffixOf_iff_suffix] at hend
    have hmem : '\n' ∈ path.toList := hend.subset (by simp)
    exact absurd (h.chars '\n' hmem) (by unfold IsPathChar; decide)
  · rintro ⟨h, hascii, hend⟩
    exact h.grammar hascii hend

/-- The check accepts exactly the grammar but for paths with a character outside ASCII or a
final newline that pass all its tests. -/
theorem publishable_iff_grammar_iff (path : String) :
    (publishablePathProblem path = none ↔ PublishableGrammar path) ↔ ¬ SlipsThrough path := by
  rw [publishablePathProblem_eq_none_iff, publishableGrammar_iff, SlipsThrough]
  have hascii : (∃ c ∈ path.toList, 128 ≤ c.toNat) ↔ ¬ ∀ c ∈ path.toList, c.toNat < 128 := by
    push Not
    rfl
  rw [hascii]
  tauto

omit [UnicodeData] in
/-- The end anchor lets a final newline through. -/
theorem newline_passes : ¬ (@publishablePathProblem asciiTables "app/main.py\n" = none ↔
    PublishableGrammar "app/main.py\n") := by
  have haccepted : @publishablePathProblem asciiTables "app/main.py\n" = none := by decide +kernel
  rw [iff_true_left haccepted, @publishableGrammar_iff asciiTables]
  exact fun h => h.2.2 (by decide +kernel)

/-! ### The workspace guard -/

theorem PassesTests.isProper (h : PassesTests path) :
    Location.IsProper (splitOnChar path '/') := by
  intro seg hseg
  obtain ⟨hempty, hdot, hdots⟩ := h.segments seg hseg
  exact ⟨hempty, hdot, hdots, notMem_of_mem_splitOnChar hseg⟩

variable {fs : FileSystem} {root : Location}

/-- What is publishable resolves to the root followed by its segments. -/
theorem PassesTests.resolveSafePath (h : PassesTests path) (hlinks : fs.NoSymlinks)
    (hroot : root.IsProper) (hne : root ≠ []) :
    StackMigrate.resolveSafePath fs root.toPath path = .ok (root ++ splitOnChar path '/') := by
  have hnormalize : normalize root (splitOnChar path '/') = root ++ splitOnChar path '/' :=
    normalize_proper h.isProper
  have hnul : '\x00' ∉ path.toList :=
    h.not_mem (by decide) (by unfold IsPathChar; decide) (by decide)
  have haccepted : Accepted fs root.toPath path :=
    (accepted_iff hlinks hroot hne).mpr ⟨h.relative, hnul, by simp [hnormalize]⟩
  rw [haccepted, locate_of_noSymlinks hlinks hroot, hnormalize]

/-- Publishable strings and the files they denote are the same thing, so a list of them that
repeats no string repeats no file, and one table serves both. -/
theorem guards_agree (fs : FileSystem) (hlinks : fs.NoSymlinks) (root : Location)
    (hroot : root.IsProper) (hne : root ≠ []) :
    (∀ p, publishablePathProblem p = none →
      resolveSafePath fs root.toPath p = .ok (root ++ splitOnChar p '/') ∧
        root ++ splitOnChar p '/' ≠ root) ∧
    (∀ p q full, publishablePathProblem p = none → publishablePathProblem q = none →
      resolveSafePath fs root.toPath p = .ok full →
      resolveSafePath fs root.toPath q = .ok full → p = q) ∧
    (∀ files : List FileDiff, (∀ diff ∈ files, publishablePathProblem diff.path = none) →
      (files.map FileDiff.path).Nodup →
      (files.map fun diff => resolveSafePath fs root.toPath diff.path).Nodup) ∧
    (∀ editorResults tasks,
      (∀ diff ∈ effectiveDiffs editorResults tasks, publishablePathProblem diff.path = none) →
      effectiveDiffs editorResults tasks =
        collect (fun diff => (resolveSafePath fs root.toPath diff.path).toOption)
          ((effectiveResults editorResults tasks).flatMap EditorResult.diffs)) := by
  have hresolve : ∀ p, publishablePathProblem p = none →
      resolveSafePath fs root.toPath p = .ok (root ++ splitOnChar p '/') := fun p hp =>
    (publishablePathProblem_eq_none_iff.mp hp).resolveSafePath hlinks hroot hne
  have hinjective : ∀ p q, publishablePathProblem p = none → publishablePathProblem q = none →
      resolveSafePath fs root.toPath p = resolveSafePath fs root.toPath q → p = q := by
    intro p q hp hq h
    rw [hresolve p hp, hresolve q hq, Except.ok.injEq, List.append_cancel_left_eq] at h
    exact splitOnChar_injective h
  refine ⟨fun p hp => ⟨hresolve p hp, ?_⟩, ?_, ?_, ?_⟩
  · simp [splitOnChar]
  · exact fun p q full hp hq hfull hfull' => hinjective p q hp hq (hfull.trans hfull'.symm)
  · intro files hfiles hnodup
    rw [List.nodup_map_iff_inj_on (List.Nodup.of_map _ hnodup)]
    intro d hd d' hd' h
    exact List.inj_on_of_nodup_map hnodup hd hd' (hinjective _ _ (hfiles d hd) (hfiles d' hd') h)
  · intro editorResults tasks hfiles
    -- a path that counts stands for all diffs of that path, overwritten ones included
    have hall : ∀ diff ∈ (effectiveResults editorResults tasks).flatMap EditorResult.diffs,
        publishablePathProblem diff.path = none := by
      intro diff hdiff
      have hkey : diff.path ∈ (effectiveDiffs editorResults tasks).map FileDiff.path :=
        (mem_keys_collect _ _).mpr (List.mem_map_of_mem hdiff)
      obtain ⟨kept, hkept, hpath⟩ := List.mem_map.mp hkey
      exact hpath ▸ hfiles kept hkept
    refine collect_congr fun d hd d' hd' => ⟨fun h => by rw [h], fun h => ?_⟩
    rw [hresolve _ (hall d hd), hresolve _ (hall d' hd')] at h
    exact splitOnChar_injective (List.append_cancel_left (Option.some.inj h))

end Tables

attribute [local instance] asciiTables

theorem guards_agree_demo :
    resolveSafePath demoWorkspace (Location.toPath ["workspace"]) "app/main.py" =
      .ok ["workspace", "app", "main.py"] := by
  have hlinks : NoSymlinks demoWorkspace := noSymlinks_of_entries (by decide +kernel)
  have hagree := guards_agree demoWorkspace hlinks ["workspace"]
    (by unfold Location.IsProper IsName; decide +kernel) (by decide)
  have hsplit : splitOnChar "app/main.py" '/' = ["app", "main.py"] := by decide +kernel
  have hresolve := (hagree.1 "app/main.py" (by decide +kernel)).1
  rw [hsplit] at hresolve
  exact hresolve

end StackMigrate
