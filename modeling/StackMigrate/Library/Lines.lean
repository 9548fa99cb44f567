import Mathlib.Data.List.Basic
import Mathlib.Tactic.Common

/-!
# Reading the lines of a text that is cut off

A text is a list of characters, its lines are what stands between separators. A reader takes a
token off the front of a line. Reading the lines of the first `n` characters finds what reading
all lines finds if and only if every token ends within these characters.
-/

namespace Lines

variable {σ β : Type*} [BEq σ] [LawfulBEq σ] {c : σ} {text : List σ}

/-- The characters in front of a line, separators included. -/
def offset : List (List σ) → ℕ
  | [] => 0
  | line :: before => line.length + 1 + offset before

omit [BEq σ] [LawfulBEq σ] in
@[simp] theorem offset_nil : offset ([] : List (List σ)) = 0 := rfl

omit [BEq σ] [LawfulBEq σ] in
@[simp] theorem offset_cons (line : List σ) (lines : List (List σ)) :
    offset (line :: lines) = line.length + 1 + offset lines := rfl

omit [BEq σ] [LawfulBEq σ] in
@[simp] theorem offset_append (lines lines' : List (List σ)) :
    offset (lines ++ lines') = offset lines + offset lines' := by
  induction lines with
  | nil => simp
  | cons line lines ih =>
    rw [List.cons_append, offset_cons, offset_cons, ih]
    omega

/-- A text ends with its last line. -/
theorem length_eq_offset {init : List (List σ)} {last : List σ}
    (h : text.splitOn c = init ++ [last]) : text.length = offset init + last.length := by
  have hlength : ∀ lines : List (List σ),
      ([c].intercalate (lines ++ [last])).length = offset lines + last.length := by
    intro lines
    induction lines with
    | nil => simp
    | cons line lines ih =>
      rw [List.cons_append, List.intercalate_cons_of_ne_nil (by simp)]
      simp only [List.length_append, List.length_singleton, ih, offset_cons]
      omega
  have hjoin : [c].intercalate (text.splitOn c) = text := List.intercalate_splitOn c
  rw [← hjoin, h, hlength]

omit [LawfulBEq σ] in
/-- Of two texts put together, the last line of the first goes on in the first line of the
second. -/
theorem splitOn_append (c : σ) (text text' : List σ) : ∃ init last first later,
    text.splitOn c = init ++ [last] ∧ text'.splitOn c = first :: later ∧
      (text ++ text').splitOn c = init ++ (last ++ first) :: later := by
  induction text with
  | nil =>
    obtain ⟨first, later, hsplit⟩ := List.exists_cons_of_ne_nil (List.splitOn_ne_nil c text')
    exact ⟨[], [], first, later, by simp [List.splitOn_nil], hsplit, by simpa using hsplit⟩
  | cons x text ih =>
    obtain ⟨init, last, first, later, hinit, hfirst, happend⟩ := ih
    rw [List.cons_append, List.splitOn_cons_eq_if_modifyHead, List.splitOn_cons_eq_if_modifyHead,
      hinit, happend]
    split_ifs with hx
    · exact ⟨[] :: init, last, first, later, rfl, hfirst, rfl⟩
    · cases init with
      | nil => exact ⟨[], x :: last, first, later, rfl, hfirst, rfl⟩
      | cons line init => exact ⟨(x :: line) :: init, last, first, later, rfl, hfirst, rfl⟩

omit [BEq σ] [LawfulBEq σ] in
/-- What contains no separator occurs on one side of it. -/
theorem infix_append_cons_iff {needle before after : List σ} (hc : c ∉ needle) :
    needle <:+: before ++ c :: after ↔ needle <:+: before ∨ needle <:+: after := by
  have hnil : ∀ part : List σ, part <+: c :: after → c ∉ part → part = [] := by
    intro part hpart hno
    rcases List.prefix_cons_iff.mp hpart with rfl | ⟨tail, rfl, -⟩
    · rfl
    · exact absurd (List.mem_cons_self ..) hno
  rw [List.infix_append_iff_ne_nil]
  constructor
  · rintro (h | h | ⟨part, part', -, hne, rfl, -, hpart⟩)
    · exact Or.inl h
    · rcases List.infix_cons_iff.mp h with h | h
      · obtain rfl := hnil needle h hc
        exact Or.inl (List.nil_infix)
      · exact Or.inr h
    · exact absurd (hnil part' hpart fun hmem => hc (List.mem_append_right _ hmem)) hne
  · rintro (h | h)
    · exact Or.inl h
    · exact Or.inr (Or.inl (List.infix_cons h))

omit [BEq σ] [LawfulBEq σ] in
/-- It occurs in the joined lines if and only if it occurs in one of them. -/
theorem infix_intercalate_iff {needle : List σ} {lines : List (List σ)} (hc : c ∉ needle)
    (hne : lines ≠ []) : needle <:+: [c].intercalate lines ↔ ∃ line ∈ lines, needle <:+: line := by
  induction lines with
  | nil => exact absurd rfl hne
  | cons line lines ih =>
    by_cases hlines : lines = []
    · subst hlines
      simp
    · rw [List.intercalate_cons_of_ne_nil hlines, List.append_assoc, List.singleton_append,
        infix_append_cons_iff hc, ih hlines, List.exists_mem_cons_iff]

/-- A reader of tokens at the front of a line. -/
structure Reads (read : List σ → Option β) (extent : β → ℕ) : Prop where
  /-- A token does not go away when the line gets longer. -/
  mono : ∀ line more token, read line = some token → ∃ token', read (line ++ more) = some token'
  /-- It is read in full if and only if it is there in full. -/
  cut : ∀ line more token, read (line ++ more) = some token →
    (read line = some token ↔ extent token ≤ line.length)

variable {read : List σ → Option β} {extent : β → ℕ}

omit [BEq σ] [LawfulBEq σ] in
theorem Reads.extent_le (h : Reads read extent) {line : List σ} {token : β}
    (hread : read line = some token) : extent token ≤ line.length := by
  have hcut := h.cut line [] token
  rw [List.append_nil] at hcut
  exact (hcut hread).mp hread

/-- Every token of the text ends within the first `n` characters. -/
def EndWithin (read : List σ → Option β) (extent : β → ℕ) (c : σ) (text : List σ) (n : ℕ) : Prop :=
  ∀ before line after token, text.splitOn c = before ++ line :: after →
    read line = some token → offset before + extent token ≤ n

theorem endWithin_of_length_le (h : Reads read extent) {n : ℕ} (hn : text.length ≤ n) :
    EndWithin read extent c text n := by
  intro before line after token hsplit hread
  have hextent := h.extent_le hread
  have hbehind : ∀ (before after : List (List σ)) (line : List σ),
      text.splitOn c = before ++ line :: after → offset before + line.length ≤ text.length := by
    intro before after line hsplit
    rcases List.eq_nil_or_concat after with rfl | ⟨init, last, rfl⟩
    · have hlength := length_eq_offset hsplit
      omega
    · have hlast : text.splitOn c = (before ++ line :: init) ++ [last] := by simp [hsplit]
      rw [length_eq_offset hlast, offset_append, offset_cons]
      omega
  have hline := hbehind before after line hsplit
  omega

omit [BEq σ] [LawfulBEq σ] in
theorem filterMap_cons_toList (line : List σ) (lines : List (List σ)) :
    (line :: lines).filterMap read = (read line).toList ++ lines.filterMap read := by
  cases hread : read line <;> simp [hread]

omit [BEq σ] [LawfulBEq σ] in
/-- The line that was torn apart and the lines behind it: nothing is missed if and only if the
token of the torn line is there in full and the lines behind it have none. -/
theorem Reads.torn_iff (h : Reads read extent) {last first : List σ} {later : List (List σ)} :
    (read last).toList = (read (last ++ first)).toList ++ later.filterMap read ↔
      (∀ token, read (last ++ first) = some token → extent token ≤ last.length) ∧
        later.filterMap read = [] := by
  constructor
  · intro heq
    have hlength := congrArg List.length heq
    rw [List.length_append] at hlength
    cases htorn : read last with
    | none =>
      simp only [htorn, Option.toList_none, List.length_nil] at heq hlength
      refine ⟨?_, List.length_eq_zero_iff.mp (by omega)⟩
      intro token hread
      simp [hread] at heq
    | some torn =>
      obtain ⟨token, hmono⟩ := h.mono last first torn htorn
      simp only [htorn, hmono, Option.toList_some, List.length_singleton] at heq hlength
      refine ⟨?_, List.length_eq_zero_iff.mp (by omega)⟩
      intro token' hread
      obtain rfl := Option.some.inj (hmono.symm.trans hread)
      obtain rfl := (List.cons.inj heq).1
      exact h.extent_le htorn
  · rintro ⟨hlast, hlater⟩
    rw [hlater, List.append_nil]
    cases hread : read (last ++ first) with
    | none =>
      cases htorn : read last with
      | none => rfl
      | some torn =>
        obtain ⟨token, hmono⟩ := h.mono last first torn htorn
        cases hread.symm.trans hmono
    | some token => rw [(h.cut last first token hread).mpr (hlast token hread)]

omit [LawfulBEq σ] in
/-- Tokens that end in front of the cut, in terms of the line it goes through. -/
theorem endWithin_iff (h : Reads read extent) {n : ℕ} {init later : List (List σ)}
    {last first : List σ} (hsplit : text.splitOn c = init ++ (last ++ first) :: later)
    (hcut : n = offset init + last.length) :
    EndWithin read extent c text n ↔
      (∀ token, read (last ++ first) = some token → extent token ≤ last.length) ∧
        later.filterMap read = [] := by
  constructor
  · intro hend
    constructor
    · intro token hread
      have hwithin := hend init (last ++ first) later token hsplit hread
      omega
    · rw [List.filterMap_eq_nil_iff]
      intro line hline
      rw [Option.eq_none_iff_forall_ne_some]
      intro token hread
      obtain ⟨before, after, rfl⟩ := List.append_of_mem hline
      have hwithin := hend (init ++ (last ++ first) :: before) line after token
        (by simp [hsplit]) hread
      rw [offset_append, offset_cons, List.length_append] at hwithin
      omega
  · rintro ⟨hlast, hlater⟩ before line after token hlines hread
    have hextent := h.extent_le hread
    rw [hsplit] at hlines
    -- a line in front of the torn one, the torn one itself, or one behind it
    rcases List.append_eq_append_iff.mp hlines with ⟨more, rfl, hmore⟩ | ⟨more, rfl, hmore⟩
    · cases more with
      | nil =>
        obtain ⟨rfl, rfl⟩ := List.cons.inj hmore
        have hend := hlast token hread
        rw [List.append_nil]
        omega
      | cons line' more =>
        obtain ⟨rfl, rfl⟩ := List.cons.inj hmore
        have hnone := List.filterMap_eq_nil_iff.mp hlater line (by simp)
        cases hnone.symm.trans hread
    · cases more with
      | nil =>
        obtain ⟨rfl, rfl⟩ := List.cons.inj hmore
        have hend := hlast token hread
        rw [List.append_nil] at hcut
        omega
      | cons line' more =>
        obtain ⟨rfl, -⟩ := List.cons.inj hmore
        rw [offset_append, offset_cons] at hcut
        omega

/-- Reading the beginning of a text finds all tokens if and only if they end there. -/
theorem filterMap_take_iff (h : Reads read extent) (text : List σ) (n : ℕ) :
    ((text.take n).splitOn c).filterMap read = (text.splitOn c).filterMap read ↔
      EndWithin read extent c text n := by
  by_cases hn : text.length ≤ n
  · rw [List.take_of_length_le hn]
    exact iff_of_true rfl (endWithin_of_length_le h hn)
  · obtain ⟨init, last, first, later, hinit, -, hsplit⟩ :=
      splitOn_append c (text.take n) (text.drop n)
    rw [List.take_append_drop] at hsplit
    have hcut : n = offset init + last.length := by
      rw [← length_eq_offset hinit, List.length_take]
      omega
    rw [endWithin_iff h hsplit hcut, ← h.torn_iff, hinit, hsplit, List.filterMap_append,
      List.filterMap_append, List.append_cancel_left_eq, filterMap_cons_toList,
      filterMap_cons_toList, List.filterMap_nil, List.append_nil]

end Lines
