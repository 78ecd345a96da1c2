import DocSchema.Table

/-!
# Keys and entries of a table

What `insert` and `insertAll` do to the keys and to the entries. A key that is new goes to the end
(`insert_of_not_contains`), and no entry comes from elsewhere (`mem_insert`, `mem_insertAll`).
Entries with distinct keys are found after they were stored (`get?_insertAll`).
-/

namespace DocSchema.Table

variable {α β : Type}

theorem contains_iff_get? (t : Table α) (key : String) :
    contains t key = true ↔ ∃ a, get? t key = some a := by
  rw [contains, Option.isSome_iff_exists]

theorem get?_eq_none_iff (t : Table α) (key : String) :
    get? t key = none ↔ contains t key = false := by
  rw [contains, Option.isSome_eq_false_iff, Option.isNone_iff_eq_none]

theorem mem_of_get? {t : Table α} {key : String} {a : α} (h : get? t key = some a) :
    (key, a) ∈ t := by
  induction t with
  | nil => simp at h
  | cons e t ih =>
    obtain ⟨k, b⟩ := e
    rw [get?] at h
    split at h
    · next hk =>
      subst hk
      cases h
      exact List.mem_cons_self
    · exact List.mem_cons_of_mem _ (ih h)

theorem sizeOf_lt_of_get? [SizeOf α] {t : Table α} {key : String} {a : α}
    (h : get? t key = some a) : sizeOf a < sizeOf t := by
  have lt := List.sizeOf_lt_of_mem (mem_of_get? h)
  simp only [Prod.mk.sizeOf_spec] at lt
  omega

theorem mem_keys {t : Table α} {key : String} : key ∈ keys t ↔ ∃ a, (key, a) ∈ t := by
  simp [keys]

/-! ### Inserting -/

theorem insert_of_not_contains {t : Table α} {key : String} (a : α)
    (h : contains t key = false) : insert t key a = t ++ [(key, a)] := by
  induction t with
  | nil => rfl
  | cons e t ih =>
    obtain ⟨k, b⟩ := e
    by_cases hk : k = key
    · simp [contains, get?, hk] at h
    · have : contains t key = false := by simpa [contains, get?, hk] using h
      simp [insert, hk, ih this]

theorem insert_insert (t : Table α) (key : String) (a b : α) :
    insert (insert t key a) key b = insert t key b := by
  induction t with
  | nil => simp [insert]
  | cons e t ih =>
    obtain ⟨k, c⟩ := e
    by_cases hk : k = key <;> simp [insert, hk, ih]

/-- Storing what is there already changes nothing. -/
theorem insert_of_get? {t : Table α} {key : String} {a : α} (h : get? t key = some a) :
    insert t key a = t := by
  induction t with
  | nil => cases h
  | cons e t ih =>
    obtain ⟨k, b⟩ := e
    by_cases hk : k = key
    · simp_all [get?, insert]
    · simp_all [get?, insert]

/-- A value that is stored only where its key is new is stored like any other one there. -/
theorem insertNew_of_free {t : Table α} {key : String} (a : α) (free : get? t key = none) :
    insertNew t key a = insert t key a := by
  have new := (get?_eq_none_iff t key).1 free
  rw [insertNew, new, insert_of_not_contains a new]
  rfl

theorem insertNew_of_get? {t : Table α} {key : String} {b : α} (a : α)
    (known : get? t key = some b) : insertNew t key a = t := by
  rw [insertNew, (contains_iff_get? t key).2 ⟨b, known⟩]
  rfl

/-- Entries with other keys are passed over. -/
theorem insert_append {t : Table α} {key : String} (h : key ∉ keys t) (t' : Table α) (a : α) :
    insert (t ++ t') key a = t ++ insert t' key a := by
  induction t with
  | nil => rfl
  | cons e t ih =>
    obtain ⟨k, b⟩ := e
    obtain ⟨hk, ht⟩ := List.ne_and_not_mem_of_not_mem_cons h
    simp [insert, Ne.symm hk, ih ht]

/-- An entry that is there already stays where it is. -/
theorem insert_append_of_mem {t : Table α} {key : String} (h : key ∈ keys t) (t' : Table α) (a : α) :
    insert (t ++ t') key a = insert t key a ++ t' := by
  induction t with
  | nil => cases h
  | cons e t ih =>
    obtain ⟨k, b⟩ := e
    by_cases hk : k = key
    · simp [insert, hk]
    · have later : key ∈ keys t := by simpa [Ne.symm hk] using h
      simp [insert, hk, ih later]

theorem keys_mapValues (f : α → β) (t : Table α) : keys (mapValues f t) = keys t := by
  simp [keys, mapValues]

theorem get?_mapValues (f : α → β) (t : Table α) (key : String) :
    get? (mapValues f t) key = (get? t key).map f := by
  induction t with
  | nil => rfl
  | cons e t ih =>
    obtain ⟨k, a⟩ := e
    unfold mapValues at ih ⊢
    by_cases hk : k = key <;> simp [get?, hk, ih]

theorem mapValues_insert (f : α → β) (t : Table α) (key : String) (a : α) :
    mapValues f (insert t key a) = insert (mapValues f t) key (f a) := by
  induction t with
  | nil => rfl
  | cons e t ih =>
    obtain ⟨k, b⟩ := e
    unfold mapValues at ih ⊢
    by_cases hk : k = key <;> simp [insert, hk, ih]

/-- An entry after `insert` is the new one or an old one. -/
theorem mem_insert {t : Table α} {key : String} {a : α} {e : String × α}
    (h : e ∈ insert t key a) : e = (key, a) ∨ e ∈ t := by
  induction t with
  | nil => exact .inl (by simpa [insert] using h)
  | cons e' t ih =>
    obtain ⟨k, b⟩ := e'
    rw [insert] at h
    split at h
    · rcases List.mem_cons.1 h with h | h
      · exact .inl h
      · exact .inr (List.mem_cons_of_mem _ h)
    · rcases List.mem_cons.1 h with h | h
      · exact .inr (h ▸ List.mem_cons_self)
      · exact (ih h).imp id (List.mem_cons_of_mem _)

theorem mem_keys_insert {t : Table α} {key other : String} {a : α} :
    other ∈ keys (insert t key a) ↔ other = key ∨ other ∈ keys t := by
  rw [← contains_iff_mem_keys, contains_insert, ← contains_iff_mem_keys]
  simp

/-! ### Inserting many entries -/

theorem insertAll_cons (t : Table α) (e : String × α) (es : Table α) :
    insertAll t (e :: es) = insertAll (insert t e.1 e.2) es := rfl

/-- Entries with keys of their own are stored behind those that are there. -/
theorem insertAll_of_distinct {t es : Table α} (distinct : (keys (t ++ es)).Nodup) :
    insertAll t es = t ++ es := by
  induction es generalizing t with
  | nil => exact (List.append_nil t).symm
  | cons e es ih =>
    have new : contains t e.1 = false := by
      rw [keys, List.map_append] at distinct
      have apart := (List.nodup_append.1 distinct).2.2
      rw [Bool.eq_false_iff, ne_eq, contains_iff_mem_keys]
      exact fun there => apart e.1 there e.1 List.mem_cons_self rfl
    have snoc : t ++ [e] ++ es = t ++ e :: es := by simp
    rw [insertAll_cons, insert_of_not_contains e.2 new, ih (by rwa [snoc]), snoc]

theorem mapValues_insertAll (f : α → β) (t es : Table α) :
    mapValues f (insertAll t es) = insertAll (mapValues f t) (mapValues f es) := by
  induction es generalizing t with
  | nil => rfl
  | cons e es ih =>
    have first : mapValues f (e :: es) = (e.1, f e.2) :: mapValues f es := rfl
    rw [first, insertAll_cons, insertAll_cons, ih, mapValues_insert]

theorem mem_insertAll {t es : Table α} {e : String × α} (h : e ∈ insertAll t es) :
    e ∈ t ∨ e ∈ es := by
  induction es generalizing t with
  | nil => exact .inl h
  | cons e' es ih =>
    rw [insertAll_cons] at h
    rcases ih h with h | h
    · rcases mem_insert h with h | h
      · exact .inr (h ▸ List.mem_cons_self)
      · exact .inl h
    · exact .inr (List.mem_cons_of_mem _ h)

/-! ### Looking up in lists that were put together -/

theorem get?_append (t t' : Table α) (key : String) :
    get? (t ++ t') key = (get? t key).or (get? t' key) := by
  induction t with
  | nil => simp
  | cons e t ih =>
    obtain ⟨k, a⟩ := e
    by_cases hk : k = key <;> simp [get?, hk, ih]

/-- Keeping the entries of some keys does not change what stands under them. -/
theorem get?_filter (t : Table α) (keep : String → Bool) (key : String) :
    get? (t.filter fun e => keep e.1) key = if keep key then get? t key else none := by
  induction t with
  | nil => simp
  | cons e t ih =>
    obtain ⟨k, a⟩ := e
    by_cases hk : k = key
    · subst hk
      cases hkeep : keep k <;> simp [get?, hkeep, ih]
    · cases hkeep : keep k <;> simp [get?, hkeep, hk, ih]

/-- Where keys are renamed and no two become one, entries are found under their new keys. -/
theorem get?_map_key (t : Table α) {rename : String → String}
    (inj : ∀ a b, rename a = rename b → a = b) (key : String) :
    get? (t.map fun e => (rename e.1, e.2)) (rename key) = get? t key := by
  induction t with
  | nil => rfl
  | cons e t ih =>
    obtain ⟨k, a⟩ := e
    by_cases hk : k = key
    · simp [get?, hk]
    · have hr : rename k ≠ rename key := fun h => hk (inj _ _ h)
      simp only [List.map_cons, get?, hk, hr, if_false]
      exact ih

theorem get?_eq_none_of_not_mem {t : Table α} {key : String} (h : key ∉ keys t) :
    get? t key = none := by
  rw [get?_eq_none_iff, Bool.eq_false_iff, ne_eq, contains_iff_mem_keys]
  exact h

theorem nodup_keys_insertAll {t : Table α} (es : Table α) (h : (keys t).Nodup) :
    (keys (insertAll t es)).Nodup := by
  induction es generalizing t with
  | nil => exact h
  | cons e es ih => exact ih (nodup_keys_insert t e.1 e.2 h)

/-- What stands under a key after entries were stored depends on what stood there before. -/
theorem get?_insertAll_congr (es : Table α) {t t' : Table α} {key : String}
    (h : get? t key = get? t' key) : get? (insertAll t es) key = get? (insertAll t' es) key := by
  induction es generalizing t t' with
  | nil => exact h
  | cons e es ih =>
    rw [insertAll_cons, insertAll_cons]
    apply ih
    by_cases hk : key = e.1
    · rw [hk, get?_insert_self, get?_insert_self]
    · rw [get?_insert_of_ne _ _ hk, get?_insert_of_ne _ _ hk, h]

/-- Storing entries with other keys changes nothing. -/
theorem get?_insertAll_of_not_mem {es : Table α} {key : String} (h : key ∉ keys es) (t : Table α) :
    get? (insertAll t es) key = get? t key := by
  induction es generalizing t with
  | nil => rfl
  | cons e es ih =>
    obtain ⟨first, rest⟩ := List.ne_and_not_mem_of_not_mem_cons h
    rw [insertAll_cons, ih rest, get?_insert_of_ne _ _ first]

/-- Entries with distinct keys are found after they were stored, and so is what stood under all
other keys. -/
theorem get?_insertAll (t : Table α) {es : Table α} (distinct : (keys es).Nodup) (key : String) :
    get? (insertAll t es) key = (get? es key).or (get? t key) := by
  induction es generalizing t with
  | nil => rfl
  | cons e es ih =>
    obtain ⟨k, a⟩ := e
    obtain ⟨fresh, others⟩ := List.nodup_cons.1 distinct
    rw [insertAll_cons, ih _ others]
    by_cases hk : k = key
    · subst hk
      simp [get?, get?_eq_none_of_not_mem fresh]
    · simp [get?, hk, get?_insert_of_ne _ _ (Ne.symm hk)]

end DocSchema.Table
