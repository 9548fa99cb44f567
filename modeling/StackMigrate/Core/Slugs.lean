import StackMigrate.Core.Text
import Mathlib.Data.List.Chain

/-!
# What a slug looks like

`slugify` leaves lower-case letters and digits with single underscores between them, and
leaves such a text alone. Ids and target paths are built from slugs, so whether two of
them clash is decided here.
-/

namespace StackMigrate

/-- A lower-case letter or a digit. -/
def isSlugChar (c : Char) : Bool := c.isAlphanum && !c.isUpper

/-- Lower-case letters and digits with single underscores inside. -/
structure IsSlug (s : List Char) : Prop where
  chars : ∀ c ∈ s, c = '_' ∨ isSlugChar c = true
  single : s.IsChain fun a b => ¬ (a = '_' ∧ b = '_')
  head : s.head? ≠ some '_'
  last : s.getLast? ≠ some '_'

-- a check of the characters that are there, not of all characters there are
instance (s : List Char) : Decidable (IsSlug s) :=
  decidable_of_iff
    ((s.all fun c => c = '_' || isSlugChar c) = true ∧
      (s.IsChain fun a b => ¬ (a = '_' ∧ b = '_')) ∧ s.head? ≠ some '_' ∧ s.getLast? ≠ some '_')
    ⟨fun h => ⟨by simpa using h.1, h.2.1, h.2.2.1, h.2.2.2⟩,
      fun h => ⟨by simpa using h.chars, h.single, h.head, h.last⟩⟩

/-! ### `slugify` produces slugs -/

theorem collapseRuns_chars (inRun : Bool) (s : List Char) :
    ∀ c ∈ collapseRuns inRun s, c = '_' ∨ c.isAlphanum = true := by
  induction s generalizing inRun with
  | nil => simp [collapseRuns]
  | cons c cs ih =>
    rw [collapseRuns]
    split_ifs with halnum hrun
    · intro d hd
      rcases List.mem_cons.mp hd with rfl | hd
      · exact Or.inr halnum
      · exact ih false d hd
    · exact ih true
    · intro d hd
      rcases List.mem_cons.mp hd with rfl | hd
      · exact Or.inl rfl
      · exact ih true d hd

/-- No two underscores next to each other, and none at once after one. -/
theorem collapseRuns_single (inRun : Bool) (s : List Char) :
    ((collapseRuns inRun s).IsChain fun a b => ¬ (a = '_' ∧ b = '_')) ∧
      (inRun = true → (collapseRuns inRun s).head? ≠ some '_') := by
  induction s generalizing inRun with
  | nil => simp [collapseRuns]
  | cons c cs ih =>
    rw [collapseRuns]
    split_ifs with halnum hrun
    · have hne : c ≠ '_' := by
        rintro rfl
        revert halnum
        decide
      refine ⟨(ih false).1.cons ?_, fun _ => by simpa using hne⟩
      rintro d - ⟨hc, -⟩
      exact hne hc
    · exact ⟨(ih true).1, fun _ => (ih true).2 rfl⟩
    · refine ⟨(ih true).1.cons ?_, fun h => absurd h hrun⟩
      rintro d hd ⟨-, rfl⟩
      exact (ih true).2 rfl hd

theorem head?_dropWhile_ne (c : Char) (s : List Char) :
    (s.dropWhile (· == c)).head? ≠ some c := by
  induction s with
  | nil => simp
  | cons d ds ih =>
    rw [List.dropWhile_cons]
    split_ifs with h
    · exact ih
    · simpa using h

theorem getLast?_dropWhile (c : Char) (s : List Char) (h : s.getLast? ≠ some c) :
    (s.dropWhile (· == c)).getLast? ≠ some c := by
  obtain ⟨pre, hpre⟩ := List.dropWhile_suffix (l := s) (· == c)
  cases hd : s.dropWhile (· == c) with
  | nil => simp
  | cons d ds =>
    rw [← hpre, hd, List.getLast?_append] at h
    rw [hd] at *
    simpa using h

theorem mem_stripChar {c d : Char} {s : List Char} (h : d ∈ stripChar c s) : d ∈ s := by
  unfold stripChar at h
  rw [List.mem_reverse] at h
  have h' := (List.dropWhile_suffix _).subset h
  rw [List.mem_reverse] at h'
  exact (List.dropWhile_suffix _).subset h'

theorem head?_stripChar (c : Char) (s : List Char) : (stripChar c s).head? ≠ some c := by
  unfold stripChar
  rw [List.head?_reverse]
  refine getLast?_dropWhile c _ ?_
  rw [List.getLast?_reverse]
  exact head?_dropWhile_ne c s

theorem getLast?_stripChar (c : Char) (s : List Char) : (stripChar c s).getLast? ≠ some c := by
  unfold stripChar
  rw [List.getLast?_reverse]
  exact head?_dropWhile_ne c _

theorem stripChar_single {s : List Char} (h : s.IsChain fun a b => ¬ (a = '_' ∧ b = '_')) :
    (stripChar '_' s).IsChain fun a b => ¬ (a = '_' ∧ b = '_') := by
  have hswap : (fun a b : Char => ¬ (b = '_' ∧ a = '_')) = fun a b => ¬ (a = '_' ∧ b = '_') := by
    funext a b
    simp [and_comm]
  unfold stripChar
  rw [List.isChain_reverse, hswap]
  refine List.IsChain.suffix ?_ (List.dropWhile_suffix _)
  rw [List.isChain_reverse, hswap]
  exact h.suffix (List.dropWhile_suffix _)

theorem toNat_lt_of_isAlphanum {c : Char} (h : c.isAlphanum = true) : c.toNat < 128 := by
  change ((decide ('A'.val ≤ c.val ∧ c.val ≤ 'Z'.val) ||
    (decide ('a'.val ≤ c.val) && decide (c.val ≤ 'z'.val))) ||
    (decide ('0'.val ≤ c.val) && decide (c.val ≤ '9'.val))) = true at h
  simp only [Bool.or_eq_true, Bool.and_eq_true, decide_eq_true_eq, UInt32.le_iff_toNat_le] at h
  change ((65 ≤ c.toNat ∧ c.toNat ≤ 90) ∨ (97 ≤ c.toNat ∧ c.toNat ≤ 122)) ∨
    (48 ≤ c.toNat ∧ c.toNat ≤ 57) at h
  omega

theorem isSlugChar_toLower {c : Char} (h : c.isAlphanum = true) : isSlugChar c.toLower = true := by
  have hall : ∀ n < 128, (Char.ofNat n).isAlphanum = true →
      isSlugChar (Char.ofNat n).toLower = true := by decide +kernel
  have hc := hall c.toNat (toNat_lt_of_isAlphanum h)
  rw [Char.ofNat_toNat] at hc
  exact hc h

theorem ne_underscore_of_isSlugChar {c : Char} (h : isSlugChar c = true) : c ≠ '_' := by
  rintro rfl
  revert h
  decide

theorem toLower_eq_underscore {c : Char} (h : c = '_' ∨ c.isAlphanum = true)
    (hlower : c.toLower = '_') : c = '_' := by
  rcases h with h | h
  · exact h
  · exact absurd hlower (ne_underscore_of_isSlugChar (isSlugChar_toLower h))

theorem isSlug_slugify (name : String) : IsSlug (slugify name).toList := by
  rw [slugify, String.toList_ofList]
  set runs := collapseRuns false (splitCamelCase name.toList) with hruns
  have hchars : ∀ c ∈ stripChar '_' runs, c = '_' ∨ c.isAlphanum = true := by
    intro c hc
    exact collapseRuns_chars false _ c (mem_stripChar hc)
  have hsingle := stripChar_single (collapseRuns_single false (splitCamelCase name.toList)).1
  refine ⟨?_, ?_, ?_, ?_⟩
  · intro d hd
    obtain ⟨c, hc, rfl⟩ := List.mem_map.mp hd
    rcases hchars c hc with rfl | halnum
    · exact Or.inl rfl
    · exact Or.inr (isSlugChar_toLower halnum)
  · rw [List.isChain_map]
    refine hsingle.imp_of_mem_imp ?_
    rintro a b ha hb hno ⟨hla, hlb⟩
    exact hno ⟨toLower_eq_underscore (hchars a ha) hla, toLower_eq_underscore (hchars b hb) hlb⟩
  · rw [List.head?_map]
    intro h
    obtain ⟨c, hc, hlower⟩ := Option.map_eq_some_iff.mp h
    have hmem := hchars c (List.mem_of_mem_head? hc)
    rw [toLower_eq_underscore hmem hlower] at hc
    exact head?_stripChar '_' runs hc
  · rw [List.getLast?_map]
    intro h
    obtain ⟨c, hc, hlower⟩ := Option.map_eq_some_iff.mp h
    have hmem := hchars c (List.mem_of_getLast? hc)
    rw [toLower_eq_underscore hmem hlower] at hc
    exact getLast?_stripChar '_' runs hc

/-! ### `slugify` on texts built from slugs -/

theorem splitCamel_of_lower {s : List Char} (h : ∀ c ∈ s, c.isUpper = false) :
    splitCamel s = s := by
  induction s with
  | nil => rfl
  | cons c cs ih =>
    have hc : c.isUpper = false := h c (by simp)
    rw [splitCamel, hc, ih fun d hd => h d (List.mem_cons_of_mem c hd)]
    rfl

theorem splitCamelCase_of_lower {s : List Char} (h : ∀ c ∈ s, c.isUpper = false) :
    splitCamelCase s = s := by
  cases s with
  | nil => rfl
  | cons c cs =>
    rw [splitCamelCase, splitCamel_of_lower fun d hd => h d (List.mem_cons_of_mem c hd)]

theorem stripChar_of_ends {c : Char} {s : List Char} (hhead : s.head? ≠ some c)
    (hlast : s.getLast? ≠ some c) : stripChar c s = s := by
  have hkeep : ∀ s : List Char, s.head? ≠ some c → s.dropWhile (· == c) = s := by
    intro s hs
    cases s with
    | nil => rfl
    | cons d ds =>
      have hd : (d == c) = false := by simpa using hs
      rw [List.dropWhile_cons, hd]
      rfl
  unfold stripChar
  rw [hkeep s hhead, hkeep s.reverse (by rwa [List.head?_reverse]), List.reverse_reverse]

theorem isAlphanum_of_isSlugChar {c : Char} (h : isSlugChar c = true) :
    c.isAlphanum = true ∧ c.isUpper = false := by
  simpa [isSlugChar] using h

theorem not_isUpper_of_all {s : List Char} (h : (s.all fun c => !c.isUpper) = true) :
    ∀ c ∈ s, c.isUpper = false := by
  intro c hc
  have hc' := List.all_eq_true.mp h c hc
  simpa using hc'

theorem toLower_of_not_isUpper {c : Char} (h : c.isUpper = false) : c.toLower = c := by
  have hno : ¬ (c.val ≥ 'A'.val ∧ c.val ≤ 'Z'.val) := of_decide_eq_false h
  exact dif_neg hno

theorem isUpper_of_slug {c : Char} (h : c = '_' ∨ isSlugChar c = true) : c.isUpper = false := by
  rcases h with rfl | h
  · decide
  · exact (isAlphanum_of_isSlugChar h).2

/-- Text without double underscores and without one at its end passes through `collapseRuns`
as it is. -/
theorem collapseRuns_append {s : List Char} (hne : s ≠ [])
    (hchars : ∀ c ∈ s, c = '_' ∨ isSlugChar c = true)
    (hsingle : s.IsChain fun a b => ¬ (a = '_' ∧ b = '_')) (hlast : s.getLast? ≠ some '_')
    {inRun : Bool} (hhead : inRun = true → s.head? ≠ some '_') (rest : List Char) :
    collapseRuns inRun (s ++ rest) = s ++ collapseRuns false rest := by
  induction s generalizing inRun with
  | nil => exact absurd rfl hne
  | cons c cs ih =>
    have hcs : ∀ d ∈ cs, d = '_' ∨ isSlugChar d = true :=
      fun d hd => hchars d (List.mem_cons_of_mem c hd)
    have hnext : cs ≠ [] → cs.getLast? ≠ some '_' := by
      intro hcs
      rwa [List.getLast?_cons_of_ne_nil hcs] at hlast
    rw [List.isChain_cons] at hsingle
    rcases hchars c (by simp) with rfl | hc
    · -- an underscore: not at the end, and not behind another one
      have hrun : inRun = false := by
        cases inRun with
        | false => rfl
        | true => simp at hhead
      have hmore : cs ≠ [] := by
        rintro rfl
        simp at hlast
      have hafter : cs.head? ≠ some '_' := fun h => hsingle.1 '_' h ⟨rfl, rfl⟩
      have hrest : collapseRuns true (cs ++ rest) = cs ++ collapseRuns false rest :=
        ih hmore hcs hsingle.2 (hnext hmore) fun _ => hafter
      simp only [List.cons_append, collapseRuns, hrun, hrest]
      simp
    · have halnum := (isAlphanum_of_isSlugChar hc).1
      simp only [List.cons_append, collapseRuns, halnum, if_true]
      by_cases hmore : cs = []
      · simp [hmore]
      · have hrest : collapseRuns false (cs ++ rest) = cs ++ collapseRuns false rest :=
          ih hmore hcs hsingle.2 (hnext hmore) (by simp)
        rw [hrest]

end StackMigrate
