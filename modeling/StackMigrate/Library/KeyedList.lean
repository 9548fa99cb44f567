import Mathlib.Data.List.Basic
import Mathlib.Data.List.Induction
import Mathlib.Data.List.Nodup
import Mathlib.Order.Basic
import Mathlib.Tactic.Common

/-!
# Insertion-ordered tables of keyed values

A table whose entries remember the order in which their keys first arrived is a
list of values with pairwise distinct keys. Writing a value replaces the entry
of its key in place, or appends it. `collect` writes a whole list: positions come
from the first occurrence of each key and values from the last one.
-/

namespace KeyedList

variable {α β κ : Type*} [DecidableEq κ] (key : α → κ)

/-- Write one value: in place when its key is present, at the end otherwise. -/
def upsert : List α → α → List α
  | [], x => [x]
  | y :: ys, x => if key y = key x then x :: ys else y :: upsert ys x

/-- Write all values of a list, from left to right, into a table. -/
def upsertAll (table values : List α) : List α := values.foldl (upsert key) table

/-- The table built from a list of values. -/
def collect (values : List α) : List α := upsertAll key [] values

/-- The entry stored under a key. -/
def lookup (table : List α) (k : κ) : Option α := table.find? fun x => key x = k

/-- The last value of a list that carries the key. -/
def last (values : List α) (k : κ) : Option α := lookup key values.reverse k

variable {key}

@[simp] theorem upsertAll_nil (table : List α) : upsertAll key table [] = table := rfl

@[simp] theorem upsertAll_cons (table : List α) (x : α) (xs : List α) :
    upsertAll key table (x :: xs) = upsertAll key (upsert key table x) xs := rfl

theorem upsertAll_append (table xs ys : List α) :
    upsertAll key table (xs ++ ys) = upsertAll key (upsertAll key table xs) ys :=
  List.foldl_append

@[simp] theorem collect_nil : collect key ([] : List α) = [] := rfl

theorem collect_append (xs ys : List α) :
    collect key (xs ++ ys) = upsertAll key (collect key xs) ys :=
  upsertAll_append [] xs ys

theorem collect_concat (xs : List α) (x : α) :
    collect key (xs ++ [x]) = upsert key (collect key xs) x :=
  collect_append xs [x]

/-! ### Keys -/

theorem keys_upsert (table : List α) (x : α) :
    (upsert key table x).map key =
      if key x ∈ table.map key then table.map key else table.map key ++ [key x] := by
  induction table with
  | nil => simp [upsert]
  | cons y ys ih =>
    by_cases h : key y = key x
    · simp [upsert, h]
    · have h' : key x ≠ key y := fun e => h e.symm
      simp only [upsert, if_neg h, List.map_cons, ih, List.mem_cons, h', false_or]
      split_ifs <;> simp

theorem nodup_keys_upsert {table : List α} (h : (table.map key).Nodup) (x : α) :
    ((upsert key table x).map key).Nodup := by
  rw [keys_upsert]
  split_ifs with hx
  · exact h
  · exact List.nodup_append.mpr ⟨h, by simp, by
      intro a ha b hb
      rw [List.mem_singleton] at hb
      exact fun e => hx (hb ▸ e ▸ ha)⟩

theorem nodup_keys_upsertAll {table : List α} (h : (table.map key).Nodup) (values : List α) :
    ((upsertAll key table values).map key).Nodup := by
  induction values generalizing table with
  | nil => exact h
  | cons x xs ih => exact ih (nodup_keys_upsert h x)

theorem nodup_keys_collect (values : List α) : ((collect key values).map key).Nodup :=
  nodup_keys_upsertAll (by simp) values

theorem mem_keys_upsert (table : List α) (x : α) (k : κ) :
    k ∈ (upsert key table x).map key ↔ k ∈ table.map key ∨ k = key x := by
  rw [keys_upsert]
  split_ifs with hx
  · constructor
    · exact Or.inl
    · rintro (h | rfl)
      · exact h
      · exact hx
  · simp [List.mem_append]

theorem mem_keys_upsertAll (table values : List α) (k : κ) :
    k ∈ (upsertAll key table values).map key ↔ k ∈ table.map key ∨ k ∈ values.map key := by
  induction values generalizing table with
  | nil => simp
  | cons x xs ih =>
    rw [upsertAll_cons, ih, mem_keys_upsert]
    simp only [List.map_cons, List.mem_cons]
    tauto

theorem mem_keys_collect (values : List α) (k : κ) :
    k ∈ (collect key values).map key ↔ k ∈ values.map key := by
  rw [collect, mem_keys_upsertAll]
  simp

/-- Keys that are already there neither move nor repeat. -/
theorem keys_upsertAll_of_subset {table values : List α}
    (h : ∀ x ∈ values, key x ∈ table.map key) :
    (upsertAll key table values).map key = table.map key := by
  induction values generalizing table with
  | nil => rfl
  | cons x xs ih =>
    have hx : (upsert key table x).map key = table.map key := by
      rw [keys_upsert, if_pos (h x (by simp))]
    rw [upsertAll_cons, ih, hx]
    intro y hy
    rw [hx]
    exact h y (by simp [hy])

/-! ### Values -/

theorem mem_of_mem_upsert {table : List α} {x y : α} (h : y ∈ upsert key table x) :
    y ∈ table ∨ y = x := by
  induction table with
  | nil => simpa [upsert] using h
  | cons z zs ih =>
    by_cases hz : key z = key x
    · simp only [upsert, if_pos hz, List.mem_cons] at h ⊢
      tauto
    · simp only [upsert, if_neg hz, List.mem_cons] at h ⊢
      rcases h with h | h
      · tauto
      · rcases ih h with h | h <;> tauto

theorem mem_upsert_of_ne {table : List α} {x y : α} (h : y ∈ table) (hne : key y ≠ key x) :
    y ∈ upsert key table x := by
  induction table with
  | nil => simp at h
  | cons z zs ih =>
    rcases List.mem_cons.mp h with rfl | h
    · simp [upsert, hne]
    · by_cases hz : key z = key x
      · simp [upsert, hz, h]
      · simp [upsert, hz, ih h]

theorem mem_of_mem_upsertAll {table values : List α} {y : α} (h : y ∈ upsertAll key table values) :
    y ∈ table ∨ y ∈ values := by
  induction values generalizing table with
  | nil => exact Or.inl h
  | cons x xs ih =>
    rcases ih h with h | h
    · rcases mem_of_mem_upsert h with h | rfl
      · exact Or.inl h
      · exact Or.inr (by simp)
    · exact Or.inr (by simp [h])

theorem mem_of_mem_collect {values : List α} {y : α} (h : y ∈ collect key values) : y ∈ values := by
  simpa using mem_of_mem_upsertAll h

theorem lookup_cons (x : α) (table : List α) (k : κ) :
    lookup key (x :: table) k = if key x = k then some x else lookup key table k := by
  by_cases h : key x = k <;> simp [lookup, h]

theorem lookup_upsert (table : List α) (x : α) (k : κ) :
    lookup key (upsert key table x) k = if key x = k then some x else lookup key table k := by
  unfold lookup
  induction table with
  | nil => by_cases hk : key x = k <;> simp [upsert, hk]
  | cons y ys ih =>
    by_cases h : key y = key x
    · by_cases hk : key x = k <;> simp [upsert, h, hk]
    · rw [upsert, if_neg h, List.find?_cons, ih, List.find?_cons]
      by_cases hy : key y = k
      · have hx : ¬ key x = k := fun e => h (hy.trans e.symm)
        simp [hy, hx]
      · simp [hy]

theorem lookup_upsertAll (table values : List α) (k : κ) :
    lookup key (upsertAll key table values) k = (last key values k).or (lookup key table k) := by
  induction values generalizing table with
  | nil => simp [last, lookup]
  | cons x xs ih =>
    rw [upsertAll_cons, ih, lookup_upsert]
    simp only [last, lookup, List.reverse_cons, List.find?_append]
    cases List.find? (fun x => decide (key x = k)) xs.reverse with
    | some y => simp
    | none => by_cases h : key x = k <;> simp [h]

theorem lookup_collect (values : List α) (k : κ) :
    lookup key (collect key values) k = last key values k := by
  rw [collect, lookup_upsertAll]
  simp [lookup]

theorem key_of_lookup {table : List α} {k : κ} {x : α} (h : lookup key table k = some x) :
    key x = k := by
  simpa using List.find?_some h

theorem mem_of_lookup {table : List α} {k : κ} {x : α} (h : lookup key table k = some x) :
    x ∈ table :=
  List.mem_of_find?_eq_some h

theorem lookup_eq_none_iff {table : List α} {k : κ} :
    lookup key table k = none ↔ k ∉ table.map key := by
  simp [lookup, List.find?_eq_none]

theorem lookup_of_mem {table : List α} (h : (table.map key).Nodup) {x : α} (hx : x ∈ table) :
    lookup key table (key x) = some x := by
  cases hl : lookup key table (key x) with
  | none => exact absurd (List.mem_map_of_mem hx) (lookup_eq_none_iff.mp hl)
  | some y =>
    rw [List.inj_on_of_nodup_map h (mem_of_lookup hl) hx (key_of_lookup hl)]

/-- A table is its keys in their order and what is stored under each. -/
theorem ext_lookup {table table' : List α} (hnd : (table.map key).Nodup)
    (hkeys : table.map key = table'.map key)
    (h : ∀ k, lookup key table k = lookup key table' k) : table = table' := by
  apply List.ext_getElem
  · simpa using congrArg List.length hkeys
  · intro n h₁ h₂
    have hkey : key table[n] = key table'[n] := by
      have hn : (table.map key)[n]? = (table'.map key)[n]? := by rw [hkeys]
      simpa [h₁, h₂] using hn
    have hl := lookup_of_mem hnd (List.getElem_mem h₁)
    rw [h, hkey, lookup_of_mem (hkeys ▸ hnd) (List.getElem_mem h₂)] at hl
    exact (Option.some.inj hl).symm

theorem lookup_map {f : α → α} (hf : ∀ x, key (f x) = key x) (table : List α) (k : κ) :
    lookup key (table.map f) k = (lookup key table k).map f := by
  induction table with
  | nil => rfl
  | cons x xs ih =>
    rw [List.map_cons, lookup_cons, lookup_cons, hf, ih]
    split_ifs <;> rfl

/-- Dropping the entry of a key. -/
theorem lookup_filter_ne (table : List α) (k k' : κ) :
    lookup key (table.filter fun x => key x ≠ k) k' =
      if k' = k then none else lookup key table k' := by
  induction table with
  | nil => simp [lookup]
  | cons x xs ih =>
    by_cases hx : key x = k
    · rw [List.filter_cons_of_neg (by simpa using hx), ih, lookup_cons]
      split_ifs with hk hxk
      · rfl
      · exact absurd (hxk.symm.trans hx) hk
      · rfl
    · rw [List.filter_cons_of_pos (by simpa using hx), lookup_cons, ih, lookup_cons]
      split_ifs with hxk hk
      · exact absurd (hxk.trans hk) hx
      all_goals rfl

theorem key_of_last {values : List α} {k : κ} {x : α} (h : last key values k = some x) :
    key x = k :=
  key_of_lookup h

theorem mem_of_last {values : List α} {k : κ} {x : α} (h : last key values k = some x) :
    x ∈ values :=
  List.mem_reverse.mp (mem_of_lookup h)

theorem last_eq_none_iff {values : List α} {k : κ} :
    last key values k = none ↔ k ∉ values.map key := by
  simp [last, lookup_eq_none_iff]

/-- The last value of a key is the one behind which the key does not occur. -/
theorem last_eq_some_iff {values : List α} {k : κ} {x : α} :
    last key values k = some x ↔ key x = k ∧ ∃ before after,
      values = before ++ x :: after ∧ ∀ y ∈ after, key y ≠ k := by
  rw [last, lookup, List.find?_eq_some_iff_append, decide_eq_true_eq]
  refine and_congr_right fun _ => ?_
  constructor
  · rintro ⟨after, before, hvalues, hafter⟩
    refine ⟨before.reverse, after.reverse, ?_, fun y hy => ?_⟩
    · simpa using congrArg List.reverse hvalues
    · simpa using hafter y (List.mem_reverse.mp hy)
  · rintro ⟨before, after, rfl, hafter⟩
    refine ⟨after.reverse, before.reverse, by simp, fun y hy => ?_⟩
    simpa using hafter y (List.mem_reverse.mp hy)

theorem last_append (xs ys : List α) (k : κ) :
    last key (xs ++ ys) k = (last key ys k).or (last key xs k) := by
  simp [last, lookup, List.find?_append]

theorem last_cons (x : α) (xs : List α) (k : κ) :
    last key (x :: xs) k = (last key xs k).or (if key x = k then some x else none) := by
  rw [← List.singleton_append, last_append]
  by_cases h : key x = k <;> simp [last, lookup, h]

theorem last_of_nodup {values : List α} (h : (values.map key).Nodup) {x : α} (hx : x ∈ values) :
    last key values (key x) = some x := by
  refine lookup_of_mem ?_ (List.mem_reverse.mpr hx)
  simpa using h

/-- Among values with distinct keys the order does not matter. -/
theorem last_perm {values values' : List α} (hnd : (values.map key).Nodup)
    (h : values.Perm values') (k : κ) : last key values k = last key values' k := by
  cases hlast : last key values' k with
  | none =>
    rw [last_eq_none_iff, (h.map key).mem_iff]
    exact last_eq_none_iff.mp hlast
  | some x =>
    rw [← key_of_last hlast]
    exact last_of_nodup hnd (h.mem_iff.mpr (mem_of_last hlast))

/-- Writing only to keys that are present changes values and nothing else. -/
theorem upsertAll_eq_map {table values : List α} (hnd : (table.map key).Nodup)
    (h : ∀ x ∈ values, key x ∈ table.map key) :
    upsertAll key table values = table.map fun x => (last key values (key x)).getD x := by
  have hf : ∀ x, key ((last key values (key x)).getD x) = key x := by
    intro x
    cases hlast : last key values (key x) with
    | none => rfl
    | some y => exact key_of_last hlast
  refine ext_lookup (nodup_keys_upsertAll hnd values) ?_ fun k => ?_
  · rw [keys_upsertAll_of_subset h, List.map_map]
    exact List.map_congr_left fun x _ => (hf x).symm
  · rw [lookup_upsertAll, lookup_map hf]
    cases hl : lookup key table k with
    | none =>
      -- no value is written under a key that the table does not have
      have hk : k ∉ values.map key := by
        intro hk
        obtain ⟨x, hx, rfl⟩ := List.mem_map.mp hk
        exact lookup_eq_none_iff.mp hl (h x hx)
      rw [last_eq_none_iff.mpr hk]
      rfl
    | some x =>
      obtain rfl := key_of_lookup hl
      rw [Option.map_some]
      cases last key values (key x) <;> rfl

theorem upsert_congr {κ' : Type*} [DecidableEq κ'] {key' : α → κ'} {table : List α} {x : α}
    (h : ∀ y ∈ table, key y = key x ↔ key' y = key' x) :
    upsert key table x = upsert key' table x := by
  induction table with
  | nil => rfl
  | cons y ys ih =>
    have hy := h y (by simp)
    by_cases hkey : key y = key x
    · rw [upsert, upsert, if_pos hkey, if_pos (hy.mp hkey)]
    · rw [upsert, upsert, if_neg hkey, if_neg (mt hy.mpr hkey),
        ih fun z hz => h z (List.mem_cons_of_mem _ hz)]

/-- Keys that tell the same values apart make the same table. -/
theorem collect_congr {κ' : Type*} [DecidableEq κ'] {key' : α → κ'} {values : List α}
    (h : ∀ x ∈ values, ∀ y ∈ values, key x = key y ↔ key' x = key' y) :
    collect key values = collect key' values := by
  induction values using List.reverseRecOn with
  | nil => rfl
  | append_singleton xs x ih =>
    have hxs := ih fun y hy z hz => h y (by simp [hy]) z (by simp [hz])
    rw [collect_concat, collect_concat, hxs]
    refine upsert_congr fun y hy => h y ?_ x (by simp)
    exact List.mem_append_left _ (mem_of_mem_collect hy)

theorem upsert_of_notMem {table : List α} {x : α} (h : key x ∉ table.map key) :
    upsert key table x = table ++ [x] := by
  induction table with
  | nil => rfl
  | cons y ys ih =>
    rw [List.map_cons, List.mem_cons, not_or] at h
    rw [upsert, if_neg (Ne.symm h.1), ih h.2, List.cons_append]

/-- A list without repeated keys is its own table. -/
theorem collect_of_nodup {values : List α} (h : (values.map key).Nodup) :
    collect key values = values := by
  induction values using List.reverseRecOn with
  | nil => rfl
  | append_singleton xs x ih =>
    simp only [List.map_append, List.map_cons, List.map_nil, List.nodup_append] at h
    have hx : key x ∉ xs.map key := fun hmem => h.2.2 _ hmem _ (by simp) rfl
    rw [collect_concat, ih h.1, upsert_of_notMem hx]

/-! ### Order of arrival

A table lists its keys in the order in which they first arrived. The values that are the last of
their key can also be listed in the order of the values themselves. -/

theorem eraseDups_concat (ks : List κ) (k : κ) :
    (ks ++ [k]).eraseDups = if k ∈ ks then ks.eraseDups else ks.eraseDups ++ [k] := by
  rw [List.eraseDups_append]
  split_ifs with hk <;> simp [List.removeAll, List.eraseDups_cons, hk]

theorem eraseDups_append_eraseDups (ks ks' : List κ) :
    (ks ++ ks'.eraseDups).eraseDups = (ks ++ ks').eraseDups := by
  induction ks' using List.reverseRecOn with
  | nil => simp
  | append_singleton ks' k ih =>
    rw [eraseDups_concat, ← List.append_assoc, eraseDups_concat]
    by_cases hk' : k ∈ ks'
    · rw [if_pos hk', if_pos (List.mem_append_right _ hk'), ih]
    · rw [if_neg hk', ← List.append_assoc, eraseDups_concat, ih]
      simp only [List.mem_append, List.mem_eraseDups]

/-- The keys of a table stand in the order of their first occurrence. -/
theorem keys_collect (values : List α) :
    (collect key values).map key = (values.map key).eraseDups := by
  induction values using List.reverseRecOn with
  | nil => rfl
  | append_singleton xs x ih =>
    rw [collect_concat, keys_upsert, List.map_append, List.map_singleton, eraseDups_concat]
    simp only [ih, List.mem_eraseDups]

theorem pairwise_idxOf_eraseDups (ks : List κ) :
    ks.eraseDups.Pairwise fun k k' => ks.idxOf k < ks.idxOf k' := by
  induction ks using List.reverseRecOn with
  | nil => simp
  | append_singleton ks new ih =>
    have hold : ks.eraseDups.Pairwise fun k k' =>
        (ks ++ [new]).idxOf k < (ks ++ [new]).idxOf k' := by
      refine ih.imp_of_mem fun hk hk' hlt => ?_
      rw [List.idxOf_append_of_mem (List.mem_eraseDups.mp hk),
        List.idxOf_append_of_mem (List.mem_eraseDups.mp hk')]
      exact hlt
    rw [eraseDups_concat]
    split_ifs with hnew
    · exact hold
    · refine List.pairwise_append.mpr ⟨hold, by simp, fun k hk k' hk' => ?_⟩
      obtain rfl : k' = new := by simpa using hk'
      have hmem := List.mem_eraseDups.mp hk
      rw [List.idxOf_append_of_mem hmem, List.idxOf_append_of_notMem hnew]
      have hlt := List.idxOf_lt_length_of_mem hmem
      omega

theorem pairwise_idxOf_collect (values : List α) : (collect key values).Pairwise fun x y =>
    (values.map key).idxOf (key x) < (values.map key).idxOf (key y) := by
  have hkeys := pairwise_idxOf_eraseDups (values.map key)
  rwa [← keys_collect, List.pairwise_map] at hkeys

variable (key) in
/-- The values behind which their key does not occur any more. -/
def lastOccurrences : List α → List α
  | [] => []
  | x :: xs => if key x ∈ xs.map key then lastOccurrences xs else x :: lastOccurrences xs

theorem mem_lastOccurrences {values : List α} {x : α} :
    x ∈ lastOccurrences key values ↔ last key values (key x) = some x := by
  induction values with
  | nil => simp [lastOccurrences, last, lookup]
  | cons y ys ih =>
    rw [lastOccurrences, last_cons]
    by_cases hy : key y ∈ ys.map key
    · rw [if_pos hy, ih]
      by_cases hkey : key y = key x
      · cases hlast : last key ys (key x) with
        | none => exact absurd (hkey ▸ hy) (last_eq_none_iff.mp hlast)
        | some z => rfl
      · rw [if_neg hkey, Option.or_none]
    · rw [if_neg hy, List.mem_cons, ih]
      by_cases hkey : key y = key x
      · have hnone : last key ys (key x) = none := last_eq_none_iff.mpr (hkey ▸ hy)
        rw [hnone, if_pos hkey, Option.none_or, Option.some.injEq]
        simp [eq_comm]
      · have hne : x ≠ y := fun e => hkey (e ▸ rfl)
        rw [if_neg hkey, Option.or_none]
        simp [hne]

theorem pairwise_idxOf_lastOccurrences (values : List α) :
    (lastOccurrences key values).Pairwise fun x y =>
      (values.map key).reverse.idxOf (key y) < (values.map key).reverse.idxOf (key x) := by
  induction values with
  | nil => simp [lastOccurrences]
  | cons x xs ih =>
    have hmem : ∀ y ∈ lastOccurrences key xs, key y ∈ (xs.map key).reverse := by
      intro y hy
      exact List.mem_reverse.mpr (List.mem_map_of_mem (mem_of_last (mem_lastOccurrences.mp hy)))
    have hold : (lastOccurrences key xs).Pairwise fun y z =>
        ((x :: xs).map key).reverse.idxOf (key z) < ((x :: xs).map key).reverse.idxOf (key y) := by
      refine ih.imp_of_mem fun hy hz hlt => ?_
      rw [List.map_cons, List.reverse_cons, List.idxOf_append_of_mem (hmem _ hy),
        List.idxOf_append_of_mem (hmem _ hz)]
      exact hlt
    rw [lastOccurrences]
    split_ifs with hx
    · exact hold
    · refine List.pairwise_cons.mpr ⟨fun y hy => ?_, hold⟩
      have hnew : key x ∉ (xs.map key).reverse := fun h => hx (List.mem_reverse.mp h)
      rw [List.map_cons, List.reverse_cons, List.idxOf_append_of_mem (hmem y hy),
        List.idxOf_append_of_notMem hnew]
      have hlt := List.idxOf_lt_length_of_mem (hmem y hy)
      omega

/-- Both list the same values. -/
theorem mem_collect_iff {values : List α} {x : α} :
    x ∈ collect key values ↔ last key values (key x) = some x := by
  rw [← lookup_collect]
  exact ⟨lookup_of_mem (nodup_keys_collect values), mem_of_lookup⟩

/-- The last value of a key in lists that are put one behind the other comes from the last list
that has the key; `rank` tells the order of the lists. -/
theorem last_flatMap_iff {γ ρ : Type*} [Preorder ρ] {lists : List γ} {g : γ → List α} {rank : γ → ρ}
    (h : lists.Pairwise fun r r' => rank r < rank r') {k : κ} {x : α} :
    last key (lists.flatMap g) k = some x ↔ ∃ r ∈ lists, last key (g r) k = some x ∧
      ∀ r' ∈ lists, k ∈ (g r').map key → rank r' ≤ rank r := by
  have hhas : ∀ {r : γ} {x : α}, last key (g r) k = some x → k ∈ (g r).map key :=
    fun hlast => key_of_last hlast ▸ List.mem_map_of_mem (mem_of_last hlast)
  induction lists generalizing x with
  | nil => simp [last, lookup]
  | cons r lists ih =>
    obtain ⟨hr, hlists⟩ := List.pairwise_cons.mp h
    rw [List.flatMap_cons, last_append]
    cases hlast : last key (lists.flatMap g) k with
    | some y =>
      -- a later list has the key, so the first one does not matter
      obtain ⟨later, hlater, hy, hmax⟩ := (ih hlists).mp hlast
      rw [Option.some_or, Option.some.injEq]
      constructor
      · rintro rfl
        refine ⟨later, List.mem_cons_of_mem _ hlater, hy, fun r' hr' hk => ?_⟩
        rcases List.mem_cons.mp hr' with rfl | hr'
        · exact (hr later hlater).le
        · exact hmax r' hr' hk
      · rintro ⟨r', hr', hx, hmax'⟩
        have hle := hmax' later (List.mem_cons_of_mem _ hlater) (hhas hy)
        rcases List.mem_cons.mp hr' with rfl | hr'
        · exact absurd hle (hr later hlater).not_ge
        · have hother := (ih hlists).mpr
            ⟨r', hr', hx, fun r'' h'' => hmax' r'' (List.mem_cons_of_mem _ h'')⟩
          exact Option.some.inj (hlast.symm.trans hother)
    | none =>
      have hnone : ∀ r' ∈ lists, k ∉ (g r').map key := by
        intro r' hr' hk
        obtain ⟨z, hz, rfl⟩ := List.mem_map.mp hk
        exact last_eq_none_iff.mp hlast
          (List.mem_map_of_mem (List.mem_flatMap.mpr ⟨r', hr', hz⟩))
      rw [Option.none_or]
      constructor
      · intro hx
        refine ⟨r, by simp, hx, fun r' hr' hk => ?_⟩
        rcases List.mem_cons.mp hr' with rfl | hr'
        · exact le_rfl
        · exact absurd hk (hnone r' hr')
      · rintro ⟨r', hr', hx, -⟩
        rcases List.mem_cons.mp hr' with rfl | hr'
        · exact hx
        · exact absurd (hhas hx) (hnone r' hr')

/-! ### Batches of writes -/

theorem last_eq_lookup {table : List α} (hnd : (table.map key).Nodup) (k : κ) :
    last key table k = lookup key table k := by
  rw [← lookup_collect, collect_of_nodup hnd]

theorem getElem?_upsert_of_ne {table : List α} {x y : α} {n : ℕ} (h : table[n]? = some y)
    (hne : key y ≠ key x) : (upsert key table x)[n]? = some y := by
  induction table generalizing n with
  | nil => simp at h
  | cons z zs ih =>
    cases n with
    | zero =>
      obtain rfl : z = y := by simpa using h
      rw [upsert, if_neg hne]
      rfl
    | succ n =>
      rw [upsert]
      split_ifs
      · exact h
      · exact ih h

/-- An entry that no value is written to stays where it is. -/
theorem getElem?_upsertAll_of_notMem {table values : List α} {y : α} {n : ℕ}
    (h : table[n]? = some y) (hy : key y ∉ values.map key) :
    (upsertAll key table values)[n]? = some y := by
  induction values generalizing table with
  | nil => exact h
  | cons x xs ih =>
    rw [List.map_cons, List.mem_cons, not_or] at hy
    exact ih (getElem?_upsert_of_ne h hy.1) hy.2

/-- Values can be collected before they are written. -/
theorem collect_append_collect (xs ys : List α) :
    collect key (xs ++ collect key ys) = collect key (xs ++ ys) := by
  have hys : ((collect key ys).map key).Nodup := nodup_keys_collect ys
  refine ext_lookup (nodup_keys_collect _) ?_ fun k => ?_
  · rw [keys_collect, keys_collect, List.map_append, keys_collect, eraseDups_append_eraseDups,
      List.map_append]
  · rw [lookup_collect, lookup_collect, last_append, last_append, last_eq_lookup hys,
      lookup_collect]

/-- Two batches that write to different keys of the table can change places. -/
theorem upsertAll_comm {table xs ys : List α} (hnd : (table.map key).Nodup)
    (hxs : ∀ x ∈ xs, key x ∈ table.map key) (hys : ∀ y ∈ ys, key y ∈ table.map key)
    (h : ∀ x ∈ xs, key x ∉ ys.map key) :
    upsertAll key (upsertAll key table xs) ys = upsertAll key (upsertAll key table ys) xs := by
  have hkeys : (upsertAll key (upsertAll key table xs) ys).map key = table.map key := by
    rw [← upsertAll_append]
    exact keys_upsertAll_of_subset fun z hz => (List.mem_append.mp hz).elim (hxs z) (hys z)
  have hkeys' : (upsertAll key (upsertAll key table ys) xs).map key = table.map key := by
    rw [← upsertAll_append]
    exact keys_upsertAll_of_subset fun z hz => (List.mem_append.mp hz).elim (hys z) (hxs z)
  refine ext_lookup (hkeys ▸ hnd) (hkeys.trans hkeys'.symm) fun k => ?_
  simp only [lookup_upsertAll]
  cases hlast : last key xs k with
  | none => simp
  | some x =>
    have hk : k ∉ ys.map key := key_of_last hlast ▸ h x (mem_of_last hlast)
    rw [last_eq_none_iff.mpr hk]
    simp

end KeyedList
