import StackMigrate.Sandbox.Workspace

/-!
# Path strings and their segments

The guard compares strings, containment is about segments. Both agree on the paths that
`realpath` returns, because no segment of them is empty or contains a slash.
-/

namespace StackMigrate

/-! ### Splitting at slashes -/

theorem splitOnChar_append (a b : String) :
    splitOnChar (a ++ "/" ++ b) '/' = splitOnChar a '/' ++ splitOnChar b '/' := by
  have hlist : (a ++ "/" ++ b).toList = a.toList ++ '/' :: b.toList := by simp
  rw [splitOnChar, hlist, List.splitOn_append_cons_self, List.map_append]
  rfl

theorem splitOnChar_of_notMem {s : String} {c : Char} (h : c ∉ s.toList) :
    splitOnChar s c = [s] := by
  simp [splitOnChar, List.splitOn_eq_singleton h]

theorem notMem_of_mem_splitOn {c : Char} {seg s : List Char} (h : seg ∈ s.splitOn c) :
    c ∉ seg := by
  induction s generalizing seg with
  | nil =>
    obtain rfl : seg = [] := by simpa using h
    simp
  | cons d s ih =>
    obtain ⟨first, others, hsplit⟩ := List.exists_cons_of_ne_nil (List.splitOn_ne_nil c s)
    rw [List.splitOn_cons_eq_if_modifyHead, hsplit] at h
    rw [hsplit] at ih
    split_ifs at h with hd
    · rcases List.mem_cons.mp h with rfl | h
      · simp
      · exact ih h
    · rw [List.modifyHead_cons] at h
      rcases List.mem_cons.mp h with rfl | h
      · have hfirst : c ∉ first := ih (by simp)
        have hne : c ≠ d := fun e => hd (by simp [e])
        simp [hne, hfirst]
      · exact ih (List.mem_cons_of_mem _ h)

theorem notMem_of_mem_splitOnChar {c : Char} {seg s : String} (h : seg ∈ splitOnChar s c) :
    c ∉ seg.toList := by
  obtain ⟨l, hl, rfl⟩ := List.mem_map.mp h
  simpa using notMem_of_mem_splitOn hl

theorem intercalate_splitOnChar (s : String) :
    String.intercalate "/" (splitOnChar s '/') = s := by
  apply String.toList_injective
  have hmap : (splitOnChar s '/').map String.toList = s.toList.splitOn '/' := by
    simp [splitOnChar, Function.comp_def]
  rw [String.toList_intercalate, hmap]
  exact List.intercalate_splitOn '/'

theorem splitOnChar_injective {p q : String} (h : splitOnChar p '/' = splitOnChar q '/') :
    p = q := by
  rw [← intercalate_splitOnChar p, h, intercalate_splitOnChar]

theorem splitOnChar_intercalate {segments : List String} (hne : segments ≠ [])
    (h : ∀ seg ∈ segments, '/' ∉ seg.toList) :
    splitOnChar (String.intercalate "/" segments) '/' = segments := by
  have hlists : ∀ l ∈ segments.map String.toList, '/' ∉ l := by
    intro l hl
    obtain ⟨seg, hseg, rfl⟩ := List.mem_map.mp hl
    exact h seg hseg
  have hsplit := List.splitOn_intercalate '/' hlists (by simpa using hne)
  rw [splitOnChar, String.toList_intercalate]
  simpa [Function.comp_def] using congrArg (List.map String.ofList) hsplit

/-- Slashes aside, a joined path has the characters of its segments. -/
theorem mem_toList_intercalate {segments : List String} {c : Char} (hc : c ≠ '/') :
    c ∈ (String.intercalate "/" segments).toList ↔ ∃ seg ∈ segments, c ∈ seg.toList := by
  induction segments with
  | nil => simp
  | cons seg segments ih =>
    by_cases hne : segments = []
    · simp [hne]
    · rw [String.intercalate_cons_of_ne_nil hne, String.toList_append, String.toList_append,
        List.mem_append, List.mem_append, ih, List.exists_mem_cons_iff]
      simp [hc]

theorem startsWith_iff {s p : String} : startsWith s p = true ↔ ∃ rest, s = p ++ rest := by
  rw [startsWith, List.isPrefixOf_iff_prefix]
  constructor
  · rintro ⟨rest, h⟩
    exact ⟨String.ofList rest, String.toList_injective (by simp [h])⟩
  · rintro ⟨rest, rfl⟩
    simp

/-! ### Locations -/

theorem Location.startsWith_toPath (loc : Location) : startsWith loc.toPath "/" = true :=
  startsWith_iff.mpr ⟨String.intercalate "/" loc, rfl⟩

theorem startsWith_joinPath (root : Location) (rel : String) :
    startsWith (joinPath root.toPath rel) "/" = true := by
  rw [startsWith_iff, joinPath]
  split_ifs
  · exact ⟨String.intercalate "/" root ++ rel, by simp [Location.toPath, String.append_assoc]⟩
  · exact ⟨String.intercalate "/" root ++ "/" ++ rel,
      by simp [Location.toPath, String.append_assoc]⟩

def Location.IsProper (loc : Location) : Prop := ∀ name ∈ loc, IsName name

namespace Location.IsProper

variable {loc loc' root : Location}

theorem append (h : loc.IsProper) (h' : loc'.IsProper) : Location.IsProper (loc ++ loc') := by
  intro name hname
  rcases List.mem_append.mp hname with hname | hname
  · exact h name hname
  · exact h' name hname

theorem of_isPrefix (h : loc.IsProper) (hpre : loc' <+: loc) : Location.IsProper loc' :=
  fun name hname => h name (hpre.subset hname)

theorem dropLast (h : loc.IsProper) : Location.IsProper loc.dropLast :=
  h.of_isPrefix (List.dropLast_prefix loc)

theorem splitOnChar_toPath (h : loc.IsProper) (hne : loc ≠ []) :
    splitOnChar loc.toPath '/' = "" :: loc := by
  have hpath : loc.toPath = "" ++ "/" ++ String.intercalate "/" loc := by
    simp [Location.toPath]
  rw [hpath, splitOnChar_append, splitOnChar_intercalate hne fun seg hseg => (h seg hseg).2.2.2,
    splitOnChar_of_notMem (by simp)]
  rfl

theorem toPath_injective (h : loc.IsProper) (h' : loc'.IsProper)
    (heq : loc.toPath = loc'.toPath) : loc = loc' := by
  have hroot : ∀ {l : Location}, l.IsProper → l.toPath = "/" → l = [] := by
    intro l hl hpath
    by_contra hne
    have hsplit := hl.splitOnChar_toPath hne
    rw [hpath, show splitOnChar "/" '/' = ["", ""] by decide] at hsplit
    simp only [List.cons.injEq, true_and] at hsplit
    exact (hl "" (by simp [← hsplit])).1 rfl
  by_cases hne : loc = []
  · subst hne
    exact (hroot h' heq.symm).symm
  · by_cases hne' : loc' = []
    · subst hne'
      exact hroot h heq
    · have hsplit := h.splitOnChar_toPath hne
      rw [heq, h'.splitOnChar_toPath hne'] at hsplit
      simpa using hsplit.symm

/-- Joining a path to a resolved one joins its segments to the names. -/
theorem splitOnChar_joinPath (h : root.IsProper) (rel : String) :
    splitOnChar (joinPath root.toPath rel) '/' = "" :: root ++ splitOnChar rel '/' := by
  by_cases hne : root = []
  · subst hne
    have hjoin : joinPath (Location.toPath []) rel = "" ++ "/" ++ rel := by
      simp [joinPath, Location.toPath, endsWith]
    rw [hjoin, splitOnChar_append, splitOnChar_of_notMem (by simp)]
  · have hend : ¬ endsWith root.toPath "/" = true := by
      intro hend
      rw [endsWith, List.isSuffixOf_iff_suffix] at hend
      obtain ⟨front, hfront⟩ := hend
      have hpath : root.toPath = String.ofList front ++ "/" ++ "" :=
        String.toList_injective (by simp [← hfront])
      have hsplit := h.splitOnChar_toPath hne
      rw [hpath, splitOnChar_append, splitOnChar_of_notMem (s := "") (by simp)] at hsplit
      have hlast := congrArg List.getLast? hsplit
      rw [List.getLast?_concat, List.getLast?_cons, List.getLast?_eq_some_getLast hne] at hlast
      have hmem : "" ∈ root := by
        have hget : root.getLast hne = "" := by simpa using hlast.symm
        exact hget ▸ List.getLast_mem hne
      exact (h "" hmem).1 rfl
    rw [joinPath, if_neg hend, splitOnChar_append, h.splitOnChar_toPath hne]

/-- What the comparison of the guard says about segments. -/
theorem isPrefix_of_startsWith (h : loc.IsProper) (hroot : root.IsProper)
    (hstart : startsWith loc.toPath (root.toPath ++ "/") = true) : root <+: loc := by
  obtain ⟨rest, hrest⟩ := startsWith_iff.mp hstart
  by_cases hne : root = []
  · exact hne ▸ List.nil_prefix
  · have hloc : loc ≠ [] := by
      rintro rfl
      have hlen := congrArg (fun s => s.toList.length) hrest
      simp [Location.toPath] at hlen
    have hsplit := h.splitOnChar_toPath hloc
    rw [hrest, splitOnChar_append, hroot.splitOnChar_toPath hne, List.cons_append,
      List.cons.injEq] at hsplit
    exact ⟨_, hsplit.2⟩

theorem startsWith_of_isPrefix (hne : root ≠ []) (hpre : root <+: loc) (hproper : root ≠ loc) :
    startsWith loc.toPath (root.toPath ++ "/") = true := by
  obtain ⟨rest, rfl⟩ := hpre
  have hrest : rest ≠ [] := by
    rintro rfl
    exact hproper (by simp)
  refine startsWith_iff.mpr ⟨String.intercalate "/" rest, ?_⟩
  simp [Location.toPath, String.intercalate_append_of_ne_nil hne hrest, String.append_assoc]

end Location.IsProper

end StackMigrate
