import Mathlib.Data.List.Nodup
import Mathlib.Data.List.Perm.Basic
import DocSchema.Proofs.Table.Keys

/-!
# Tables in another order

A table with distinct keys is known by what stands under its keys: two such tables agree on all keys
exactly if one is a permutation of the other (`perm_iff_get?`). Sorted by their keys, they are equal
then (`mergeSort_congr`).
-/

namespace DocSchema.Table

variable {α β : Type}

theorem mem_iff_get? {t : Table α} (distinct : (keys t).Nodup) {key : String} {a : α} :
    (key, a) ∈ t ↔ get? t key = some a := by
  refine ⟨fun h => ?_, mem_of_get?⟩
  induction t with
  | nil => cases h
  | cons e t ih =>
    obtain ⟨k, b⟩ := e
    obtain ⟨fresh, others⟩ := List.nodup_cons.1 distinct
    rcases List.mem_cons.1 h with h | h
    · cases h
      simp [get?]
    · have hk : k ≠ key := by
        rintro rfl
        exact fresh (mem_keys.2 ⟨a, h⟩)
      simpa [get?, hk] using ih others h

theorem mem_keys_iff_get? {t : Table α} {key : String} :
    key ∈ keys t ↔ ∃ a, get? t key = some a := by
  rw [← contains_iff_mem_keys, contains_iff_get?]

/-- Tables with distinct keys agree on all keys exactly if they differ by their order alone. -/
theorem perm_iff_get? {t t' : Table α} (distinct : (keys t).Nodup) (distinct' : (keys t').Nodup) :
    t.Perm t' ↔ ∀ key, get? t key = get? t' key := by
  constructor
  · intro h key
    refine Option.ext fun a => ?_
    rw [← mem_iff_get? distinct, ← mem_iff_get? distinct', h.mem_iff]
  · intro h
    refine (List.perm_ext_iff_of_nodup (.of_map _ distinct) (.of_map _ distinct')).2 fun e => ?_
    obtain ⟨key, a⟩ := e
    rw [mem_iff_get? distinct, mem_iff_get? distinct', h key]

theorem nodup_keys_of_perm {t t' : Table α} (h : t.Perm t') (distinct : (keys t).Nodup) :
    (keys t').Nodup :=
  (h.map Prod.fst).nodup_iff.1 distinct

theorem perm_keys {t : Table α} {t' : Table β} (distinct : (keys t).Nodup)
    (distinct' : (keys t').Nodup) (same : ∀ key, contains t key = contains t' key) :
    (keys t).Perm (keys t') :=
  (List.perm_ext_iff_of_nodup distinct distinct').2 fun key => by
    rw [← contains_iff_mem_keys, ← contains_iff_mem_keys, same key]

/-- What is gathered from two tables is the same up to its order if it is the same under each
key. -/
theorem perm_flatMap {γ : Type} {t : Table α} {t' : Table β} (distinct : (keys t).Nodup)
    (distinct' : (keys t').Nodup) (same : ∀ key, contains t key = contains t' key)
    {f : String × α → List γ} {g : String × β → List γ}
    (h : ∀ key a b, get? t key = some a → get? t' key = some b → (f (key, a)).Perm (g (key, b))) :
    (t.flatMap f).Perm (t'.flatMap g) := by
  -- the keys say in which order things are gathered
  have by_keys {ε : Type} {u : Table ε} (once : (keys u).Nodup) (f : String × ε → List γ) :
      u.flatMap f = (keys u).flatMap fun key => ((get? u key).map fun a => f (key, a)).getD [] := by
    rw [keys, List.flatMap_map]
    refine List.flatMap_congr fun e he => ?_
    simp [(mem_iff_get? once).1 he]
  rw [by_keys distinct f, by_keys distinct' g]
  refine (perm_keys distinct distinct' same).flatMap fun key hk => ?_
  obtain ⟨a, ha⟩ := mem_keys_iff_get?.1 hk
  obtain ⟨b, hb⟩ := (contains_iff_get? t' key).1 (by rw [← same, contains, ha]; rfl)
  simpa [ha, hb] using h key a b ha hb

/-! ### Removing a key -/

theorem swapErase_perm {t : Table α} (distinct : (keys t).Nodup) (key : String) :
    (swapErase t key).Perm (t.filter fun e => e.1 ≠ key) := by
  induction t with
  | nil => exact .refl _
  | cons e t ih =>
    obtain ⟨k, a⟩ := e
    obtain ⟨fresh, others⟩ := List.nodup_cons.1 distinct
    by_cases hk : k = key
    · subst hk
      have rest : t.filter (fun e => e.1 ≠ k) = t := List.filter_eq_self.2 fun e he => by
        have : e.1 ≠ k := fun h => fresh (List.mem_map.2 ⟨e, he, h⟩)
        simpa using this
      rw [swapErase, if_pos rfl, List.filter_cons_of_neg (by simp), rest]
      cases hl : t.getLast? with
      | none => rw [List.getLast?_eq_none_iff.1 hl]
      | some last =>
        obtain ⟨front, rfl⟩ := List.getLast?_eq_some_iff.1 hl
        rw [List.dropLast_concat]
        exact (List.perm_append_singleton last front).symm
    · rw [swapErase, if_neg hk, List.filter_cons_of_pos (by simpa using hk)]
      exact (ih others).cons _

theorem nodup_keys_swapErase {t : Table α} (distinct : (keys t).Nodup) (key : String) :
    (keys (swapErase t key)).Nodup := by
  refine nodup_keys_of_perm (swapErase_perm distinct key).symm ?_
  exact distinct.sublist (List.filter_sublist.map Prod.fst)

theorem get?_swapErase {t : Table α} (distinct : (keys t).Nodup) (key other : String) :
    get? (swapErase t key) other = if other = key then none else get? t other := by
  have filtered : (keys (t.filter fun e => e.1 ≠ key)).Nodup :=
    distinct.sublist (List.filter_sublist.map Prod.fst)
  rw [(perm_iff_get? (nodup_keys_swapErase distinct key) filtered).1 (swapErase_perm distinct key)]
  have kept := get?_filter t (fun k => decide (k ≠ key)) other
  rw [kept]
  by_cases ho : other = key <;> simp [ho]

end DocSchema.Table
