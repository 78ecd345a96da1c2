/-!
# Ordered tables

A table is a list of key–value pairs. Where a table is built by `insert`, its keys are distinct and
stand in the order in which they were first inserted: a later value for a key goes into the place
the key already has. The order of a table is part of its value, since it is what gets printed.

Looking up takes the first entry of a key, so `get?` is defined on every list of pairs and the laws
of `get?` and `insert` (`get?_insert_self`, `get?_insert_of_ne`) need no assumption on it.
-/

namespace DocSchema

/-- A list of key–value pairs, read as a map that remembers its order. -/
abbrev Table (α : Type) := List (String × α)

namespace Table

variable {α β : Type}

def get? : Table α → String → Option α
  | [], _ => none
  | (k, a) :: t, key => if k = key then some a else get? t key

def contains (t : Table α) (key : String) : Bool := (get? t key).isSome

def keys (t : Table α) : List String := t.map Prod.fst

/-- Store a value: in place where the key is present, at the end where it is new. -/
def insert : Table α → String → α → Table α
  | [], key, a => [(key, a)]
  | (k, b) :: t, key, a => if k = key then (key, a) :: t else (k, b) :: insert t key a

/-- Store a value only where the key is new. -/
def insertNew (t : Table α) (key : String) (a : α) : Table α :=
  if contains t key then t else t ++ [(key, a)]

/-- Store many entries, one after the other. -/
def insertAll (t : Table α) (entries : Table α) : Table α :=
  entries.foldl (fun t e => insert t e.1 e.2) t

/-- Remove a key by moving the last entry into its place, so that no other entry has to move. -/
def swapErase : Table α → String → Table α
  | [], _ => []
  | (k, a) :: t, key =>
    if k = key then
      match t.getLast? with
      | none => []
      | some last => last :: t.dropLast
    else (k, a) :: swapErase t key

def mapValues (f : α → β) (t : Table α) : Table β := t.map fun e => (e.1, f e.2)

/-! ## Laws -/

@[simp] theorem get?_nil (key : String) : get? ([] : Table α) key = none := rfl

@[simp] theorem get?_insert_self (t : Table α) (key : String) (a : α) :
    get? (insert t key a) key = some a := by
  induction t with
  | nil => simp [insert, get?]
  | cons e t ih =>
    obtain ⟨k, b⟩ := e
    by_cases h : k = key <;> simp [insert, get?, h, ih]

theorem get?_insert_of_ne (t : Table α) {key other : String} (a : α) (h : other ≠ key) :
    get? (insert t key a) other = get? t other := by
  induction t with
  | nil => simp [insert, get?, Ne.symm h]
  | cons e t ih =>
    obtain ⟨k, b⟩ := e
    by_cases hk : k = key
    · subst hk; simp [insert, get?, Ne.symm h]
    · by_cases ho : k = other
      · subst ho; simp [insert, get?, hk]
      · simp [insert, get?, hk, ho, ih]

theorem contains_insert (t : Table α) (key other : String) (a : α) :
    contains (insert t key a) other = (decide (other = key) || contains t other) := by
  by_cases h : other = key
  · subst h; simp [contains]
  · simp [contains, get?_insert_of_ne t a h, h]

@[simp] theorem keys_nil : keys ([] : Table α) = [] := rfl

@[simp] theorem keys_cons (e : String × α) (t : Table α) : keys (e :: t) = e.1 :: keys t := rfl

theorem contains_iff_mem_keys (t : Table α) (key : String) :
    contains t key = true ↔ key ∈ keys t := by
  induction t with
  | nil => simp [contains]
  | cons e t ih =>
    obtain ⟨k, b⟩ := e
    unfold contains at ih ⊢
    by_cases h : k = key
    · simp [get?, h]
    · simp [get?, h, ih, Ne.symm h]

theorem keys_insert_of_contains (t : Table α) {key : String} (a : α) (h : contains t key = true) :
    keys (insert t key a) = keys t := by
  induction t with
  | nil => simp [contains] at h
  | cons e t ih =>
    obtain ⟨k, b⟩ := e
    by_cases hk : k = key
    · simp [insert, hk]
    · have : contains t key = true := by simpa [contains, get?, hk] using h
      simp [insert, hk, ih this]

theorem keys_insert_of_not_contains (t : Table α) {key : String} (a : α)
    (h : contains t key = false) : keys (insert t key a) = keys t ++ [key] := by
  induction t with
  | nil => rfl
  | cons e t ih =>
    obtain ⟨k, b⟩ := e
    by_cases hk : k = key
    · simp [contains, get?, hk] at h
    · have : contains t key = false := by simpa [contains, get?, hk] using h
      simp [insert, hk, ih this]

/-- Distinct keys stay distinct. -/
theorem nodup_keys_insert (t : Table α) (key : String) (a : α) (h : (keys t).Nodup) :
    (keys (insert t key a)).Nodup := by
  cases hc : contains t key with
  | true => rwa [keys_insert_of_contains t a hc]
  | false =>
    rw [keys_insert_of_not_contains t a hc]
    have : key ∉ keys t := fun hm => by
      rw [(contains_iff_mem_keys t key).2 hm] at hc; cases hc
    refine List.nodup_append.2 ⟨h, by simp, ?_⟩
    intro x hx y hy
    obtain rfl := List.mem_singleton.1 hy
    exact fun hxy => this (hxy ▸ hx)

end Table

end DocSchema
