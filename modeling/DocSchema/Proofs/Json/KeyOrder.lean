import DocSchema.Json.Sorted
import DocSchema.Proofs.Table.Order

/-!
# The order of keys

Two values that differ by the order of keys alone have one sorted form, and two values of one sorted
form differ by the order of keys alone (`reordered_iff`). Most proofs use the sorted form: objects
of one sorted form hold values of one sorted form under each key (`sorted_obj_iff`).
-/

namespace DocSchema.Json

/-! ### Tidy values -/

mutual

/-- Whether the keys of every object in a value are distinct and have no dots. -/
def Tidy : Json → Prop
  | .arr items => TidyItems items
  | .obj fields =>
    (Table.keys fields).Nodup ∧ (∀ key ∈ Table.keys fields, '.' ∉ key.toList) ∧ TidyFields fields
  | _ => True

def TidyItems : List Json → Prop
  | [] => True
  | v :: vs => Tidy v ∧ TidyItems vs

def TidyFields : List (String × Json) → Prop
  | [] => True
  | (_, v) :: fs => Tidy v ∧ TidyFields fs

end

theorem tidyItems_iff {items : List Json} : TidyItems items ↔ ∀ v ∈ items, Tidy v := by
  induction items with
  | nil => simp [TidyItems]
  | cons v vs ih => simp [TidyItems, ih]

theorem tidyFields_iff {fields : List (String × Json)} :
    TidyFields fields ↔ ∀ e ∈ fields, Tidy e.2 := by
  induction fields with
  | nil => simp [TidyFields]
  | cons e fs ih =>
    obtain ⟨k, v⟩ := e
    simp [TidyFields, ih]

/-! ### Sorted forms -/

theorem sortedItems_eq (items : List Json) : sortedItems items = items.map sorted := by
  induction items with
  | nil => rfl
  | cons v vs ih => rw [sortedItems, ih, List.map_cons]

theorem sortedFields_eq (fields : List (String × Json)) :
    sortedFields fields = Table.mapValues sorted fields := by
  induction fields with
  | nil => rfl
  | cons e fs ih =>
    obtain ⟨k, v⟩ := e
    rw [sortedFields, ih]
    rfl

theorem keys_sortedFields (fields : List (String × Json)) :
    Table.keys (sortedFields fields) = Table.keys fields := by
  rw [sortedFields_eq, Table.keys_mapValues]

theorem get?_sortedFields (fields : List (String × Json)) (key : String) :
    Table.get? (sortedFields fields) key = (Table.get? fields key).map sorted := by
  rw [sortedFields_eq, Table.get?_mapValues]

theorem entryLe_trans (a b c : String × Json) (hab : entryLe a b = true) (hbc : entryLe b c = true) :
    entryLe a c = true := by
  simp only [entryLe, Bool.not_eq_true', decide_eq_false_iff_not, String.not_lt] at *
  exact String.le_trans hab hbc

theorem entryLe_total (a b : String × Json) : (entryLe a b || entryLe b a) = true := by
  simp only [entryLe, Bool.or_eq_true, Bool.not_eq_true', decide_eq_false_iff_not, String.not_lt]
  exact String.le_total a.1 b.1

/-- Fields with distinct keys in any order are the same once they are sorted. -/
theorem mergeSort_congr {fields fields' : List (String × Json)}
    (distinct : (Table.keys fields).Nodup) (h : fields.Perm fields') :
    fields.mergeSort entryLe = fields'.mergeSort entryLe := by
  have sorted (l : List (String × Json)) := List.pairwise_mergeSort entryLe_trans entryLe_total l
  refine List.Perm.eq_of_pairwise (fun a b ha hb hab hba => ?_) (sorted fields) (sorted fields') ?_
  · simp only [entryLe, Bool.not_eq_true', decide_eq_false_iff_not, String.not_lt] at hab hba
    have same : a.1 = b.1 := String.le_antisymm hab hba
    have ha' : a ∈ fields := List.mem_mergeSort.1 ha
    have hb' : b ∈ fields := h.mem_iff.2 (List.mem_mergeSort.1 hb)
    have fst : Table.get? fields b.1 = some a.2 := (Table.mem_iff_get? distinct).1 (same ▸ ha')
    have snd : Table.get? fields b.1 = some b.2 := (Table.mem_iff_get? distinct).1 hb'
    exact Prod.ext same (Option.some.inj (fst.symm.trans snd))
  · exact ((List.mergeSort_perm _ _).trans h).trans (List.mergeSort_perm _ _).symm

theorem perm_of_sorted_obj {fields fields' : List (String × Json)}
    (h : (obj fields).sorted = (obj fields').sorted) :
    (sortedFields fields).Perm (sortedFields fields') := by
  rw [sorted, sorted] at h
  have perm := List.mergeSort_perm (sortedFields fields) entryLe
  rw [obj.inj h] at perm
  exact perm.symm.trans (List.mergeSort_perm _ _)

/-- Objects with one sorted form are those that hold values of one sorted form under each key. -/
theorem sorted_obj_iff {fields fields' : List (String × Json)}
    (distinct : (Table.keys fields).Nodup) (distinct' : (Table.keys fields').Nodup) :
    (obj fields).sorted = (obj fields').sorted ↔
      ∀ key, (Table.get? fields key).map sorted = (Table.get? fields' key).map sorted := by
  rw [← keys_sortedFields] at distinct distinct'
  simp only [← get?_sortedFields]
  rw [← Table.perm_iff_get? distinct distinct']
  refine ⟨perm_of_sorted_obj, fun h => ?_⟩
  rw [sorted, sorted, mergeSort_congr distinct h]

/-! ### Reordering keys -/

mutual

/-- Two values that differ by the order of the keys of objects alone. -/
inductive Reordered : Json → Json → Prop
  | refl (v : Json) : Reordered v v
  | arr {items items' : List Json} (h : ItemsReordered items items') :
      Reordered (.arr items) (.arr items')
  | obj {fields fields' fields'' : List (String × Json)} (h : FieldsReordered fields fields')
      (order : fields'.Perm fields'') : Reordered (.obj fields) (.obj fields'')

inductive ItemsReordered : List Json → List Json → Prop
  | nil : ItemsReordered [] []
  | cons {v v' : Json} {vs vs' : List Json} (first : Reordered v v')
      (others : ItemsReordered vs vs') : ItemsReordered (v :: vs) (v' :: vs')

/-- The fields of two objects, with the keys in one order, that differ by the order of keys inside
of their values. -/
inductive FieldsReordered : List (String × Json) → List (String × Json) → Prop
  | nil : FieldsReordered [] []
  | cons {key : String} {v v' : Json} {fs fs' : List (String × Json)} (first : Reordered v v')
      (others : FieldsReordered fs fs') : FieldsReordered ((key, v) :: fs) ((key, v') :: fs')

end

mutual

theorem Reordered.sorted_eq : ∀ {v v' : Json}, Reordered v v' → Tidy v → v.sorted = v'.sorted
  | _, _, .refl v, _ => rfl
  | _, _, .arr h, tidy => by rw [sorted, sorted, ItemsReordered.sorted_eq h tidy]
  | .obj fields, _, .obj h order, ⟨distinct, _, tidy⟩ => by
    have inner := FieldsReordered.sorted_eq h tidy
    rw [← keys_sortedFields, inner] at distinct
    rw [sorted, sorted, inner, sortedFields_eq, sortedFields_eq]
    rw [sortedFields_eq] at distinct
    exact congrArg Json.obj (mergeSort_congr distinct (order.map _))

theorem ItemsReordered.sorted_eq : ∀ {vs vs' : List Json}, ItemsReordered vs vs' → TidyItems vs →
    sortedItems vs = sortedItems vs'
  | _, _, .nil, _ => rfl
  | _, _, .cons first others, ⟨here, rest⟩ => by
    rw [sortedItems, sortedItems, first.sorted_eq here, others.sorted_eq rest]

theorem FieldsReordered.sorted_eq : ∀ {fs fs' : List (String × Json)}, FieldsReordered fs fs' →
    TidyFields fs → sortedFields fs = sortedFields fs'
  | _, _, .nil, _ => rfl
  | _, _, .cons first others, ⟨here, rest⟩ => by
    rw [sortedFields, sortedFields, first.sorted_eq here, others.sorted_eq rest]

end

/-- A permutation of the images of a list is the list of images of a permutation. -/
theorem exists_perm_of_perm_map {α β : Type} {f : α → β} {m m' : List β} (h : m.Perm m') :
    ∀ {l : List α}, m = l.map f → ∃ l', l.Perm l' ∧ m' = l'.map f := by
  induction h with
  | nil => exact fun {l} hl => ⟨l, .refl l, hl⟩
  | cons b h ih =>
    intro l hl
    obtain ⟨a, l, rfl, rfl, rest⟩ := List.map_eq_cons_iff.1 hl.symm
    obtain ⟨l', perm, rfl⟩ := ih rest.symm
    exact ⟨a :: l', perm.cons a, rfl⟩
  | swap b c m =>
    intro l hl
    obtain ⟨a, l, rfl, rfl, rest⟩ := List.map_eq_cons_iff.1 hl.symm
    obtain ⟨a', l, rfl, rfl, rfl⟩ := List.map_eq_cons_iff.1 rest
    exact ⟨a' :: a :: l, .swap a' a l, rfl⟩
  | trans _ _ ih ih' =>
    intro l hl
    obtain ⟨l', perm, hl'⟩ := ih hl
    obtain ⟨l'', perm', hl''⟩ := ih' hl'
    exact ⟨l'', perm.trans perm', hl''⟩

mutual

theorem reordered_of_sorted : ∀ {v v' : Json}, v.sorted = v'.sorted → Reordered v v'
  | .arr items, v', h => by
    cases v' with
    | arr items' => exact .arr (itemsReordered_of_sorted (Json.arr.inj h))
    | _ => cases h
  | .obj fields, v', h => by
    cases v' with
    | obj fields' =>
      obtain ⟨fields'', perm, same⟩ := exists_perm_of_perm_map (perm_of_sorted_obj h).symm
        (sortedFields_eq fields')
      exact .obj (fieldsReordered_of_sorted (same.trans (sortedFields_eq fields'').symm)) perm.symm
    | _ => cases h
  | .null, v', h => by cases v' <;> cases h; exact .refl _
  | .bool b, v', h => by cases v' <;> cases h; exact .refl _
  | .num n, v', h => by cases v' <;> cases h; exact .refl _
  | .str s, v', h => by cases v' <;> cases h; exact .refl _

theorem itemsReordered_of_sorted : ∀ {vs vs' : List Json}, sortedItems vs = sortedItems vs' →
    ItemsReordered vs vs'
  | [], [], _ => .nil
  | v :: vs, v' :: vs', h => by
    obtain ⟨first, others⟩ := List.cons.inj h
    exact .cons (reordered_of_sorted first) (itemsReordered_of_sorted others)

theorem fieldsReordered_of_sorted : ∀ {fs fs' : List (String × Json)},
    sortedFields fs = sortedFields fs' → FieldsReordered fs fs'
  | [], [], _ => .nil
  | (k, v) :: fs, (k', v') :: fs', h => by
    obtain ⟨first, others⟩ := List.cons.inj h
    obtain ⟨rfl, value⟩ := Prod.mk.inj first
    exact .cons (reordered_of_sorted value) (fieldsReordered_of_sorted others)

end

/-- Two values differ by the order of keys alone exactly if they have one sorted form. -/
theorem reordered_iff {v v' : Json} (tidy : Tidy v) : Reordered v v' ↔ v.sorted = v'.sorted :=
  ⟨fun h => h.sorted_eq tidy, reordered_of_sorted⟩

end DocSchema.Json
