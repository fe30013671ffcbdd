import Mathlib
import Cutscene.Keyed

/-!
Entries in order, as what is found under the names.

In order, each name has one entry, so an entry is there just if it is found (`mem_iff_find?`), and
entries under which the same is found are the same (`eq_of_find?`). An entry that takes the place of
another one leaves the names as they are (`map_fst_insert`). What is found in entries that were put in
one after the other is the last one under the name (`find?_ofList`).
-/
namespace Cutscene.Keyed

variable {α : Type} {entries others : Keyed α}

theorem mem_of_find? {key : String} {value : α} (h : entries.find? key = some value) :
    (key, value) ∈ entries := by
  induction entries with
  | nil => cases h
  | cons first rest ih =>
    obtain ⟨k, v⟩ := first
    by_cases hk : k = key
    · subst hk
      rw [find?_cons_self, Option.some.injEq] at h
      rw [h]
      exact List.mem_cons_self
    · rw [find?_cons_of_ne hk] at h
      exact List.mem_cons_of_mem _ (ih h)

/-- In order, an entry is there just if it is found under its name. -/
theorem mem_iff_find? (h : Ordered entries) {key : String} {value : α} :
    (key, value) ∈ entries ↔ entries.find? key = some value := by
  refine ⟨fun hmem => ?_, mem_of_find?⟩
  induction entries with
  | nil => cases hmem
  | cons first rest ih =>
    obtain ⟨k, v⟩ := first
    obtain ⟨hfirst, hrest⟩ := List.pairwise_cons.mp h
    rcases List.mem_cons.mp hmem with heq | hlater
    · cases heq
      exact find?_cons_self key value rest
    · rw [find?_cons_of_ne (hfirst _ hlater).ne]
      exact ih hrest hlater

theorem Ordered.nodup (h : Ordered entries) : entries.Nodup :=
  h.imp fun hlt heq => by rw [heq] at hlt; exact lt_irrefl _ hlt

/-- **Entries in order are the same if the same is found in them.** -/
theorem eq_of_find? (h : Ordered entries) (hothers : Ordered others)
    (hsame : ∀ key, entries.find? key = others.find? key) : entries = others := by
  have hmem : ∀ e, e ∈ entries ↔ e ∈ others := by
    rintro ⟨key, value⟩
    rw [mem_iff_find? h, mem_iff_find? hothers, hsame]
  have hperm : entries.Perm others := (List.perm_ext_iff_of_nodup h.nodup hothers.nodup).mpr hmem
  exact hperm.eq_of_pairwise (fun a b _ _ hab hba => absurd hab hba.not_gt) h hothers

/-- Replacing an entry leaves the names as they are. -/
theorem map_fst_insert {key : String} (h : Ordered entries) (hkey : key ∈ entries.map Prod.fst)
    (value : α) : (entries.insert key value).map Prod.fst = entries.map Prod.fst := by
  induction entries with
  | nil => cases hkey
  | cons first rest ih =>
    obtain ⟨k, v⟩ := first
    obtain ⟨hfirst, hrest⟩ := List.pairwise_cons.mp h
    unfold insert
    rcases List.mem_cons.mp hkey with rfl | hlater
    · simp
    · obtain ⟨e, he, rfl⟩ := List.mem_map.mp hlater
      have hlt : k < e.1 := hfirst e he
      rw [if_neg hlt.not_gt, if_neg hlt.ne', List.map_cons, List.map_cons, ih hrest hlater]

/-! ## Entries put in one after the other -/

theorem ordered_ofList (bindings : List (String × α)) : Ordered (ofList bindings) :=
  ordered_foldl_insert bindings List.Pairwise.nil

/-- The last entry that was put in under a name is found. -/
theorem find?_ofList (bindings : List (String × α)) (key : String) :
    (ofList bindings).find? key = bindings.reverse.lookup key := by
  induction bindings using List.reverseRecOn with
  | nil => rfl
  | append_singleton bindings last ih =>
    obtain ⟨k, v⟩ := last
    have hlast : ofList (bindings ++ [(k, v)]) = (ofList bindings).insert k v := by
      simp [ofList, List.foldl_append]
    rw [hlast, List.reverse_append, List.reverse_singleton, List.singleton_append]
    by_cases hk : key = k
    · subst hk
      simp [List.lookup]
    · have hne : (key == k) = false := by simpa using hk
      rw [find?_insert_of_ne hk, ih, List.lookup, hne]

end Cutscene.Keyed
