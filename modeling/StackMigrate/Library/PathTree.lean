import StackMigrate.Library.KeyedList
import Mathlib.Data.List.Infix

/-!
# Trees of files that are written by path

A tree says what stands at each location. Writing a file makes directories of all locations
on the way to it. A write is refused at a directory and behind a file, and in a batch a write
can be refused because of an earlier one: exactly if one of the two locations lies below the
other.
-/

namespace PathTree

open KeyedList

inductive Node (β : Type*)
  | file (content : β)
  | directory

/-- What stands at a location, the list of the names on the way to it. -/
abbrev Tree (σ β : Type*) := List σ → Option (Node β)

variable {σ β : Type*} [DecidableEq σ] {t : Tree σ β} {p q : List σ} {c : β}

omit [DecidableEq σ] in
/-- Above the last name is everything strictly above the location. -/
theorem isPrefix_dropLast_iff (hne : p ≠ []) : q <+: p.dropLast ↔ q <+: p ∧ q ≠ p := by
  have hlast := List.dropLast_append_getLast hne
  constructor
  · intro hq
    refine ⟨hq.trans (List.dropLast_prefix p), ?_⟩
    rintro rfl
    have hlen := hq.length_le
    rw [List.length_dropLast] at hlen
    have hpos := List.length_pos_of_ne_nil hne
    omega
  · rintro ⟨hq, hqne⟩
    rw [← hlast] at hq hqne
    exact (List.prefix_concat_iff.mp hq).resolve_left hqne

omit [DecidableEq σ] in
/-- The content of the file at a location. -/
def fileAt (t : Tree σ β) (p : List σ) : Option β :=
  match t p with
  | some (.file c) => some c
  | _ => none

omit [DecidableEq σ] in
@[simp] theorem fileAt_eq_some : fileAt t p = some c ↔ t p = some (.file c) := by
  unfold fileAt
  split <;> simp_all

/-- Write a file, with all directories above it. -/
def write (t : Tree σ β) (p : List σ) (c : β) : Tree σ β := fun q =>
  if q = p then some (.file c) else if q <+: p then some .directory else t q

/-- Drop the files at the given locations. -/
def erase (t : Tree σ β) (ps : List (List σ)) : Tree σ β := fun q =>
  if q ∈ ps ∧ (fileAt t q).isSome then none else t q

theorem fileAt_erase (t : Tree σ β) (ps : List (List σ)) (q : List σ) :
    fileAt (erase t ps) q = if q ∈ ps then none else fileAt t q := by
  by_cases hgone : q ∈ ps ∧ (fileAt t q).isSome
  · have hnone : erase t ps q = none := if_pos hgone
    rw [if_pos hgone.1, fileAt, hnone]
  · have hsame : fileAt (erase t ps) q = fileAt t q := by
      rw [fileAt, fileAt, show erase t ps q = t q from if_neg hgone]
    rw [hsame]
    split_ifs with hq
    · simpa [hq] using hgone
    · rfl

theorem erase_cons (t : Tree σ β) (p : List σ) (ps : List (List σ)) :
    erase (erase t [p]) ps = erase t (p :: ps) := by
  funext q
  have hfile := fileAt_erase t [p] q
  by_cases hq : q = p
  · have hone : fileAt (erase t [p]) q = none := by simpa [hq] using hfile
    rw [erase, if_neg (by simp [hone])]
    simp [erase, hq]
  · have hone : fileAt (erase t [p]) q = fileAt t q := by simpa [hq] using hfile
    rw [erase, hone]
    simp [erase, hq]

/-! ### Refused writes -/

omit [DecidableEq σ] in
/-- A location that no file can be written to. -/
def Blocked (t : Tree σ β) (p : List σ) : Prop :=
  t p = some .directory ∨ ∃ q c, q <+: p ∧ q ≠ p ∧ t q = some (.file c)

omit [DecidableEq σ] in
/-- One location lies below the other. -/
def Clash (p q : List σ) : Prop := p ≠ q ∧ (p <+: q ∨ q <+: p)

/-- The writes of a batch, one after the other. -/
def writeAll (t : Tree σ β) : List (List σ × β) → Tree σ β
  | [] => t
  | (p, c) :: rest => writeAll (write t p c) rest

/-- No write of the batch is refused. -/
def Writable (t : Tree σ β) : List (List σ × β) → Prop
  | [] => True
  | (p, c) :: rest => ¬ Blocked t p ∧ Writable (write t p c) rest

/-- Behind a batch each location holds what was written to it last, and every other file is
what it was. -/
theorem fileAt_writeAll {batch : List (List σ × β)} (h : Writable t batch) (q : List σ) :
    fileAt (writeAll t batch) q = ((last Prod.fst batch q).map Prod.snd).or (fileAt t q) := by
  induction batch generalizing t with
  | nil => simp [writeAll, last, lookup]
  | cons x batch ih =>
    obtain ⟨p, c⟩ := x
    have hone : fileAt (write t p c) q = if q = p then some c else fileAt t q := by
      by_cases hqp : q = p
      · simp [hqp, write]
      · by_cases hpre : q <+: p
        · have hnofile : fileAt t q = none := by
            cases hf : fileAt t q with
            | none => rfl
            | some d => exact absurd (Or.inr ⟨q, d, hpre, hqp, fileAt_eq_some.mp hf⟩) h.1
          rw [hnofile]
          simp [fileAt, write, hqp, hpre]
        · simp [fileAt, write, hqp, hpre]
    rw [writeAll, ih h.2, hone, show (p, c) :: batch = [(p, c)] ++ batch from rfl, last_append]
    cases hlast : last Prod.fst batch q with
    | some y => rfl
    | none =>
      by_cases hqp : q = p
      · simp [last, lookup, hqp]
      · simp [last, lookup, hqp, Ne.symm hqp]

/-- A location is as it was, but that a directory may have been created there. -/
def Kept (t t' : Tree σ β) (q : List σ) : Prop :=
  t' q = t q ∨ t q = none ∧ t' q = some .directory

omit [DecidableEq σ] in
theorem Kept.trans {t' t'' : Tree σ β} (h : Kept t t' q) (h' : Kept t' t'' q) : Kept t t'' q := by
  rcases h with hsame | ⟨hnone, hdir⟩
  · rcases h' with hsame' | ⟨hnone, hdir⟩
    · exact Or.inl (hsame'.trans hsame)
    · exact Or.inr ⟨hsame ▸ hnone, hdir⟩
  · rcases h' with hsame' | ⟨hnone', -⟩
    · exact Or.inr ⟨hnone, hsame'.trans hdir⟩
    · cases hdir.symm.trans hnone'

/-- Off its locations a batch creates directories and does nothing else. -/
theorem kept_writeAll {batch : List (List σ × β)} (h : Writable t batch)
    (hq : q ∉ batch.map Prod.fst) : Kept t (writeAll t batch) q := by
  induction batch generalizing t with
  | nil => exact Or.inl rfl
  | cons x batch ih =>
    obtain ⟨p, c⟩ := x
    rw [List.map_cons, List.mem_cons, not_or] at hq
    have hone : Kept t (write t p c) q := by
      by_cases hpre : q <+: p
      · rw [Kept, write, if_neg hq.1, if_pos hpre]
        cases ht : t q with
        | none => exact Or.inr ⟨rfl, rfl⟩
        | some node =>
          cases node with
          | directory => exact Or.inl rfl
          | file d => exact absurd (Or.inr ⟨q, d, hpre, hq.1, ht⟩) h.1
      · exact Or.inl (by rw [write, if_neg hq.1, if_neg hpre])
    exact hone.trans (ih h.2 hq.2)

/-- A batch is written in full, or it stops at the first write that is refused. -/
theorem writable_or_stuck (t : Tree σ β) (batch : List (List σ × β)) :
    Writable t batch ∨ ∃ done x rest, batch = done ++ x :: rest ∧ Writable t done ∧
      Blocked (writeAll t done) x.1 := by
  induction batch generalizing t with
  | nil => exact Or.inl trivial
  | cons x batch ih =>
    obtain ⟨p, c⟩ := x
    by_cases hp : Blocked t p
    · exact Or.inr ⟨[], (p, c), batch, rfl, trivial, hp⟩
    · rcases ih (write t p c) with h | ⟨done, y, rest, rfl, hdone, hy⟩
      · exact Or.inl ⟨hp, h⟩
      · exact Or.inr ⟨(p, c) :: done, y, rest, rfl, ⟨hp, hdone⟩, hy⟩

end PathTree
