import DocSchema.Json.Basic
import DocSchema.Proofs.Table.Keys

/-!
# Renaming a key

A key is renamed in a JSON value wherever it stands, at every depth. Under the new key, where it was
not used before, one finds what stood under the old one, renamed in turn, and all other keys keep
their places (`Table.get?_rename_new`, `Table.get?_rename_of_ne`). A value that lacks the old key
stays as it is (`Json.rename_of_lacks`).
-/

namespace DocSchema

/-! ### Tables -/

namespace Table

variable {α β : Type} {old new key : String} {f : α → β} {t : Table α}

def renameKey (old new key : String) : String := if key = old then new else key

@[simp] theorem renameKey_old (old new : String) : renameKey old new old = new := if_pos rfl

theorem renameKey_of_ne (h : key ≠ old) : renameKey old new key = key := if_neg h

/-- A table with one key renamed and with other values. -/
def rename (old new : String) (f : α → β) (t : Table α) : Table β :=
  t.map fun e => (renameKey old new e.1, f e.2)

@[simp] theorem rename_cons (e : String × α) :
    rename old new f (e :: t) = (renameKey old new e.1, f e.2) :: rename old new f t := rfl

theorem get?_rename_of_ne (notOld : key ≠ old) (notNew : key ≠ new) :
    get? (rename old new f t) key = (get? t key).map f := by
  induction t with
  | nil => rfl
  | cons e t ih =>
    obtain ⟨k, a⟩ := e
    by_cases isOld : k = old
    · subst isOld
      simp [get?, Ne.symm notOld, Ne.symm notNew, ih]
    · rw [rename_cons, renameKey_of_ne isOld]
      by_cases here : k = key <;> simp [get?, here, ih]

/-- A new name that only the renamed key may have had before leads to what the old one led to. -/
theorem get?_rename_new (unused : ∀ e ∈ t, e.1 = new → e.1 = old) :
    get? (rename old new f t) new = (get? t old).map f := by
  induction t with
  | nil => rfl
  | cons e t ih =>
    obtain ⟨k, a⟩ := e
    have first : k = new → k = old := unused (k, a) List.mem_cons_self
    have ih := ih fun e there => unused e (List.mem_cons_of_mem _ there)
    by_cases isOld : k = old
    · subst isOld
      simp [get?]
    · have notNew : k ≠ new := fun h => isOld (first h)
      rw [rename_cons, renameKey_of_ne isOld]
      simp [get?, notNew, isOld, ih]

end Table

/-! ### Values -/

namespace Json

mutual

def rename (old new : String) : Json → Json
  | .arr items => .arr (renameItems old new items)
  | .obj fields => .obj (renameFields old new fields)
  | v => v

def renameItems (old new : String) : List Json → List Json
  | [] => []
  | v :: vs => rename old new v :: renameItems old new vs

def renameFields (old new : String) : List (String × Json) → List (String × Json)
  | [] => []
  | (key, v) :: fs => (Table.renameKey old new key, rename old new v) :: renameFields old new fs

end

mutual

/-- Whether a value has a key nowhere. -/
def Lacks (key : String) : Json → Prop
  | .arr items => ItemsLack key items
  | .obj fields => FieldsLack key fields
  | _ => True

def ItemsLack (key : String) : List Json → Prop
  | [] => True
  | v :: vs => Lacks key v ∧ ItemsLack key vs

def FieldsLack (key : String) : List (String × Json) → Prop
  | [] => True
  | (k, v) :: fs => k ≠ key ∧ Lacks key v ∧ FieldsLack key fs

end

variable {old new : String}

mutual

theorem rename_of_lacks : ∀ v : Json, v.Lacks old → v.rename old new = v
  | .null, _ => rfl
  | .bool _, _ => rfl
  | .num _, _ => rfl
  | .str _, _ => rfl
  | .arr items, h => by rw [rename, renameItems_of_lacks items h]
  | .obj fields, h => by rw [rename, renameFields_of_lacks fields h]

theorem renameItems_of_lacks : ∀ vs : List Json, ItemsLack old vs → renameItems old new vs = vs
  | [], _ => rfl
  | v :: vs, ⟨first, others⟩ => by
    rw [renameItems, rename_of_lacks v first, renameItems_of_lacks vs others]

theorem renameFields_of_lacks :
    ∀ fs : List (String × Json), FieldsLack old fs → renameFields old new fs = fs
  | [], _ => rfl
  | (key, v) :: fs, ⟨notOld, first, others⟩ => by
    rw [renameFields, Table.renameKey_of_ne notOld, rename_of_lacks v first,
      renameFields_of_lacks fs others]

end

end Json

end DocSchema
