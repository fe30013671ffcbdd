/-!
Entries under names, kept in the order of their names. Names are compared by code points.
Inserting under a name that is there already replaces its entry, and keeps the entries in order
(`ordered_insert`). What is found under the other names stays as it is (`find?_insert_of_ne`,
`find?_erase_of_ne`).

Correspondence (engine ↔ here):
  `BTreeMap` of names                           ↔ `Keyed`
  `HashMap` of names, whose order nothing reads ↔ `Keyed`
-/
namespace Cutscene

/-- Entries under names. -/
abbrev Keyed (α : Type) := List (String × α)

namespace Keyed

variable {α : Type}

/-- Put an entry under a name, in the place where the name belongs. -/
def insert (key : String) (value : α) : Keyed α → Keyed α
  | [] => [(key, value)]
  | (k, v) :: rest =>
    if key < k then (key, value) :: (k, v) :: rest
    else if key = k then (key, value) :: rest
    else (k, v) :: insert key value rest

/-- The entry under a name. -/
def find? (key : String) : Keyed α → Option α
  | [] => none
  | (k, v) :: rest => if k = key then some v else find? key rest

/-- Whether there is an entry under a name. -/
def contains (key : String) (entries : Keyed α) : Bool := (entries.find? key).isSome

/-- Take the entry under a name away. -/
def erase (key : String) (entries : Keyed α) : Keyed α := entries.filter fun e => e.1 ≠ key

/-- Entries put in one after the other, so that the last one under a name stays. -/
def ofList (entries : List (String × α)) : Keyed α :=
  entries.foldl (fun keyed e => keyed.insert e.1 e.2) []

/-! ## What is found -/

@[simp] theorem find?_cons_self (key : String) (value : α) (rest : Keyed α) :
    find? key ((key, value) :: rest) = some value := if_pos rfl

theorem find?_cons_of_ne {key k : String} (h : k ≠ key) (v : α) (rest : Keyed α) :
    find? key ((k, v) :: rest) = find? key rest := if_neg h

@[simp] theorem find?_insert_self (key : String) (value : α) (entries : Keyed α) :
    find? key (insert key value entries) = some value := by
  induction entries with
  | nil => exact find?_cons_self key value []
  | cons first rest ih =>
    obtain ⟨k, v⟩ := first
    unfold insert
    split
    · exact find?_cons_self key value _
    · split
      · exact find?_cons_self key value rest
      · next hne => exact (find?_cons_of_ne (Ne.symm hne) v _).trans ih

theorem find?_insert_of_ne {key other : String} (h : other ≠ key) (value : α)
    (entries : Keyed α) : find? other (insert key value entries) = find? other entries := by
  induction entries with
  | nil => exact find?_cons_of_ne h.symm value []
  | cons first rest ih =>
    obtain ⟨k, v⟩ := first
    unfold insert
    split
    · exact find?_cons_of_ne h.symm value _
    · split
      · next heq =>
        subst heq
        rw [find?_cons_of_ne h.symm, find?_cons_of_ne h.symm]
      · by_cases hk : k = other
        · subst hk
          rw [find?_cons_self, find?_cons_self]
        · rw [find?_cons_of_ne hk, find?_cons_of_ne hk, ih]

@[simp] theorem find?_erase_self (key : String) (entries : Keyed α) :
    find? key (erase key entries) = none := by
  induction entries with
  | nil => rfl
  | cons first rest ih =>
    obtain ⟨k, v⟩ := first
    unfold erase at ih ⊢
    by_cases hk : k = key
    · rw [List.filter_cons_of_neg (by simpa using hk), ih]
    · rw [List.filter_cons_of_pos (by simpa using hk), find?_cons_of_ne hk, ih]

theorem find?_erase_of_ne {key other : String} (h : other ≠ key) (entries : Keyed α) :
    find? other (erase key entries) = find? other entries := by
  induction entries with
  | nil => rfl
  | cons first rest ih =>
    obtain ⟨k, v⟩ := first
    unfold erase at ih ⊢
    by_cases hk : k = key
    · subst hk
      rw [List.filter_cons_of_neg (by simp), find?_cons_of_ne h.symm, ih]
    · rw [List.filter_cons_of_pos (by simpa using hk)]
      by_cases ho : k = other
      · subst ho
        rw [find?_cons_self, find?_cons_self]
      · rw [find?_cons_of_ne ho, find?_cons_of_ne ho, ih]

/-! ## Order -/

/-- Whether the entries stand in the order of their names, each name once. -/
def Ordered (entries : Keyed α) : Prop := entries.Pairwise fun a b => a.1 < b.1

theorem mem_insert {key : String} {value : α} {entries : Keyed α} {e : String × α}
    (h : e ∈ insert key value entries) : e = (key, value) ∨ e ∈ entries := by
  induction entries with
  | nil => simpa [insert] using h
  | cons first rest ih =>
    obtain ⟨k, v⟩ := first
    unfold insert at h
    split at h
    · exact List.mem_cons.mp h
    · split at h
      · exact (List.mem_cons.mp h).imp_right (List.mem_cons_of_mem _)
      · rcases List.mem_cons.mp h with h | h
        · exact .inr (h ▸ List.mem_cons_self)
        · exact (ih h).imp_right (List.mem_cons_of_mem _)

/-- Inserting keeps the entries in order. -/
theorem ordered_insert (key : String) (value : α) {entries : Keyed α} (h : Ordered entries) :
    Ordered (insert key value entries) := by
  induction entries with
  | nil => simp [insert, Ordered]
  | cons first rest ih =>
    obtain ⟨k, v⟩ := first
    have hrest : ∀ e ∈ rest, k < e.1 := fun e he => List.rel_of_pairwise_cons h he
    unfold insert
    split
    · rename_i hlt
      refine List.Pairwise.cons (fun e he => ?_) h
      rcases List.mem_cons.mp he with rfl | he
      · exact hlt
      · exact String.lt_trans hlt (hrest e he)
    · split
      · rename_i heq
        exact List.Pairwise.cons (fun e he => heq ▸ hrest e he) h.of_cons
      · rename_i hlt hne
        refine List.Pairwise.cons (fun e he => ?_) (ih h.of_cons)
        rcases mem_insert he with rfl | he
        · exact Std.lt_of_le_of_ne (String.not_lt.mp hlt) (Ne.symm hne)
        · exact hrest e he

theorem ordered_foldl_insert (new : List (String × α)) {entries : Keyed α} (h : Ordered entries) :
    Ordered (new.foldl (fun keyed e => keyed.insert e.1 e.2) entries) := by
  induction new generalizing entries with
  | nil => exact h
  | cons e new ih => exact ih (ordered_insert e.1 e.2 h)

end Keyed

end Cutscene
