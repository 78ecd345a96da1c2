import DocSchema.Proofs.Json.KeyOrder
import DocSchema.Proofs.Schema.Compatible
import DocSchema.Proofs.Schema.Places
import DocSchema.Proofs.Schema.TypeNames

/-!
# Definitions of one form

The form of a definition is what it is shown as, with the keys of all objects in order. Definitions
of one form have records of one form (`record_form`), and these have the same shape and indexes that
say the same (`shape_form`, `FieldIndex.ofRecord?_form`). There are two exceptions. A compiled
schema is shown as its tree, like a group of fields; and an array or an object of JSON that was not
taken apart is no type, while its form is that of a definition that is one.
-/

namespace DocSchema

open Definition

variable {δ : Type} {typeKey path key : String} {d d' x x' : Definition δ}

namespace Definition

/-- What a definition is shown as, whatever the order of its keys. -/
def form (d : Definition δ) : Json := d.toJson.sorted

/-- Whether a definition is an array or an object of JSON that was not taken apart. -/
def isBare : Definition δ → Bool
  | .literal (.arr _) => true
  | .literal (.obj _) => true
  | _ => false

/-- A definition without compiled schemas, where the keys of every object are distinct and have no
dots. -/
structure Simple (d : Definition δ) : Prop where
  schemas : d.schemas = []
  tidy : d.toJson.Tidy

/-- A definition that is simple but for dots in its own keys. -/
def Neat : Definition δ → Prop
  | .object fields => (Table.keys fields).Nodup ∧ ∀ e ∈ fields, Simple e.2
  | d => Simple d

/-- A definition that came from JSON. -/
def IsJson (d : Definition δ) : Prop := ∃ v, d = ofJson v

/-! ### What a definition holds -/

theorem itemsJson_eq (items : List (Definition δ)) : itemsJson items = items.map toJson := by
  induction items with
  | nil => rfl
  | cons d items ih => rw [itemsJson, ih, List.map_cons]

theorem fieldsJson_eq (fields : List (String × Definition δ)) :
    fieldsJson fields = Table.mapValues toJson fields := by
  induction fields with
  | nil => rfl
  | cons e fields ih =>
    obtain ⟨key, d⟩ := e
    rw [fieldsJson, ih]
    rfl

theorem keys_fieldsJson (fields : List (String × Definition δ)) :
    Table.keys (fieldsJson fields) = Table.keys fields := by
  rw [fieldsJson_eq, Table.keys_mapValues]

theorem hereditary_simple : Hereditary (Simple : Definition δ → Prop) where
  field {fields} h e he := by
    obtain ⟨flat, -, -, tidy⟩ := h
    rw [fieldsJson_eq, Json.tidyFields_iff] at tidy
    refine ⟨List.eq_nil_iff_forall_not_mem.2 fun c hc => ?_, ?_⟩
    · rw [schemas, List.eq_nil_iff_forall_not_mem] at flat
      exact flat c (mem_fieldSchemas.2 ⟨e, he, hc⟩)
    · exact tidy (e.1, e.2.toJson) (List.mem_map.2 ⟨e, he, rfl⟩)
  item {items} h d hd := by
    obtain ⟨flat, tidy⟩ := h
    rw [toJson, Json.Tidy, itemsJson_eq, Json.tidyItems_iff] at tidy
    refine ⟨List.eq_nil_iff_forall_not_mem.2 fun c hc => ?_, tidy _ (List.mem_map_of_mem hd)⟩
    rw [schemas, List.eq_nil_iff_forall_not_mem] at flat
    exact flat c (mem_itemSchemas.2 ⟨d, hd, hc⟩)

theorem hereditary_isJson : Hereditary (IsJson : Definition δ → Prop) where
  field {fields} h e he := by
    obtain ⟨v, hv⟩ := h
    cases v with
    | obj fs =>
      cases hv
      induction fs with
      | nil => cases he
      | cons f fs ih =>
        rcases List.mem_cons.1 he with rfl | he
        · exact ⟨f.2, rfl⟩
        · exact ih he
    | _ => cases hv
  item {items} h d hd := by
    obtain ⟨v, hv⟩ := h
    cases v with
    | arr vs =>
      cases hv
      induction vs with
      | nil => cases hd
      | cons v vs ih =>
        rcases List.mem_cons.1 hd with rfl | hd
        · exact ⟨v, rfl⟩
        · exact ih hd
    | _ => cases hv

theorem hereditary_sizeOf (n : Nat) : Hereditary fun d : Definition δ => sizeOf d ≤ n where
  field {fields} h e he := by
    obtain ⟨key, d⟩ := e
    have := List.sizeOf_lt_of_mem he
    simp only [object.sizeOf_spec, Prod.mk.sizeOf_spec] at h this ⊢
    omega
  item {items} h d hd := by
    have := List.sizeOf_lt_of_mem hd
    simp only [array.sizeOf_spec] at h
    omega

mutual

theorem schemas_ofJson : ∀ v : Json, (ofJson v : Definition δ).schemas = []
  | .null => rfl
  | .bool _ => rfl
  | .num _ => rfl
  | .str _ => rfl
  | .arr items => schemas_ofItems items
  | .obj fields => schemas_ofFields fields

theorem schemas_ofItems : ∀ vs : List Json, itemSchemas (ofItems vs : List (Definition δ)) = []
  | [] => rfl
  | v :: vs => by rw [ofItems, itemSchemas, schemas_ofJson v, schemas_ofItems vs, List.append_nil]

theorem schemas_ofFields : ∀ fs : List (String × Json),
    fieldSchemas (ofFields fs : List (String × Definition δ)) = []
  | [] => rfl
  | (k, v) :: fs => by
    rw [ofFields, fieldSchemas, schemas_ofJson v, schemas_ofFields fs, List.append_nil]

end

theorem form_ofJson (v : Json) : (ofJson v : Definition δ).form = v.sorted := by
  rw [form, toJson_ofJson]

theorem simple_ofJson {v : Json} (tidy : v.Tidy) : Simple (ofJson v : Definition δ) :=
  ⟨schemas_ofJson v, by rwa [toJson_ofJson]⟩

theorem Simple.neat (h : Simple d) : Neat d := by
  cases d with
  | object fields =>
    have distinct := h.tidy.1
    rw [keys_fieldsJson] at distinct
    exact ⟨distinct, hereditary_simple.field h⟩
  | _ => exact h

mutual

theorem plainAt_of_tidy : ∀ d : Definition δ, d.toJson.Tidy → PlainAt typeKey d
  | .object (f :: fs), h => fun _ => plainKeys_of_tidy (f :: fs) h
  | .object [], _ => trivial
  | .type _, _ => trivial
  | .schema _, _ => trivial
  | .array _, _ => trivial
  | .literal _, _ => trivial

/-- The keys of an object that is shown tidy are plain. -/
theorem plainKeys_of_tidy : ∀ fields : List (String × Definition δ),
    (Json.obj (fieldsJson fields)).Tidy → PlainKeys typeKey fields
  | [], _ => trivial
  | (key, d) :: rest, ⟨distinct, dots, here, others⟩ => by
    rw [fieldsJson, Table.keys_cons, keys_fieldsJson] at distinct dots
    obtain ⟨fresh, distinct⟩ := List.nodup_cons.1 distinct
    refine ⟨dots key List.mem_cons_self, fresh, plainAt_of_tidy d here, plainKeys_of_tidy rest ?_⟩
    rw [Json.Tidy, keys_fieldsJson]
    exact ⟨distinct, fun k hk => dots k (List.mem_cons_of_mem _ hk), others⟩

end

theorem Simple.plainKeys {fields : List (String × Definition δ)} (h : Simple (object fields)) :
    PlainKeys typeKey fields :=
  plainKeys_of_tidy fields h.tidy

/-- What the record of a field holds. -/
theorem Neat.record (h : Neat d) (typeKey : String) :
    (Table.keys (d.record typeKey)).Nodup ∧ ∀ e ∈ d.record typeKey, Simple e.2 := by
  have alone {y : Definition δ} (hy : Simple y) : (Table.keys [(typeKey, y)]).Nodup ∧
      ∀ e ∈ [(typeKey, y)], Simple e.2 := by
    simpa [Table.keys] using hy
  cases d with
  | object fields =>
    rw [Definition.record, unwrapped]
    split
    · next inner hi =>
      split
      · exact h
      · exact (h.2 _ (Table.mem_of_get? (get?_of_statedType? hi))).neat
    · exact h
  | type t => exact alone h
  | schema s => exact alone h
  | array items => exact alone h
  | literal v => exact alone h

theorem IsJson.not_bare (h : IsJson d) : d.isBare = false := by
  obtain ⟨v, rfl⟩ := h
  cases v <;> rfl

/-! ### What a form tells -/

theorem object_of_form {fs : List (String × Json)} (h : d.form = .obj fs)
    (bare : d.isBare = false) (flat : d.schemas = []) : ∃ fields, d = object fields := by
  cases d with
  | object fields => exact ⟨fields, rfl⟩
  | schema s => cases flat
  | literal v =>
    cases v <;> cases h
    cases bare
  | type t => cases h
  | array items => cases h

theorem array_of_form {items : List (Definition δ)} (h : (array items).form = d.form)
    (bare : d.isBare = false) (flat : d.schemas = []) :
    ∃ items', d = array items' ∧ items.map form = items'.map form := by
  cases d with
  | array items' =>
    have same := Json.arr.inj h
    rw [Json.sortedItems_eq, Json.sortedItems_eq, itemsJson_eq, itemsJson_eq, List.map_map,
      List.map_map] at same
    exact ⟨items', rfl, same⟩
  | schema s => cases flat
  | literal v => cases v <;> first | cases h | cases bare
  | type t => cases h
  | object fields => cases h

theorem eq_null_of_form (h : d.form = .null) : d = .literal .null := by
  cases d with
  | literal v => cases v <;> cases h; rfl
  | schema s => cases s; cases h
  | _ => cases h

theorem eq_bool_of_form {b : Bool} (h : d.form = .bool b) : d = .literal (.bool b) := by
  cases d with
  | literal v => cases v <;> cases h; rfl
  | schema s => cases s; cases h
  | _ => cases h

theorem eq_nullItem_of_form (h : d.form = (array [.literal .null] : Definition δ).form)
    (bare : d.isBare = false) (flat : d.schemas = []) : d = .array [.literal .null] := by
  obtain ⟨items, rfl, same⟩ := array_of_form h.symm bare flat
  match items, same with
  | [x], same =>
    have here : form (.literal .null : Definition δ) = x.form := (List.cons.inj same).1
    rw [eq_null_of_form here.symm]
  | _ :: _ :: _, same => cases (List.cons.inj same).2

/-- Objects of one form hold definitions of one form under each key. -/
theorem fields_form {fields fields' : List (String × Definition δ)}
    (same : (object fields).form = (object fields').form) (distinct : (Table.keys fields).Nodup)
    (distinct' : (Table.keys fields').Nodup) (key : String) :
    (Table.get? fields key).map form = (Table.get? fields' key).map form := by
  rw [← keys_fieldsJson] at distinct distinct'
  have here := (Json.sorted_obj_iff distinct distinct').1 same key
  rw [get?_fieldsJson, get?_fieldsJson, Option.map_map, Option.map_map] at here
  exact here

theorem form_eq_text {name : String} (h : d.form = .str name) : d.toJson = .str name := by
  unfold form at h
  cases hv : d.toJson <;> rw [hv] at h <;> cases h
  rfl

theorem isUnset_iff : d.isUnset = true ↔ d.form = .null ∨ d.form = .bool false := by
  cases d with
  | literal v =>
    cases v with
    | bool b => cases b <;> simp [isUnset, form, toJson, Json.sorted]
    | _ => simp [isUnset, form, toJson, Json.sorted]
  | schema s => cases s; simp [isUnset, form, toJson, schemaJson, Json.sorted]
  | _ => simp [isUnset, form, toJson, Json.sorted]

theorem isUnset_form (h : d.form = d'.form) : d.isUnset = d'.isUnset := by
  rw [Bool.eq_iff_iff, isUnset_iff, isUnset_iff, h]

variable {r r' : Table (Definition δ)}

/-- Records that hold definitions of one form under some key hold types of one form there. -/
theorem statedType?_form (same : (Table.get? r typeKey).map form = (Table.get? r' typeKey).map form) :
    (statedType? r typeKey).map form = (statedType? r' typeKey).map form := by
  unfold statedType?
  cases hx : Table.get? r typeKey with
  | none =>
    rw [hx, Option.map_none, eq_comm, Option.map_eq_none_iff] at same
    rw [same]
  | some x =>
    rw [hx, Option.map_some, eq_comm, Option.map_eq_some_iff] at same
    obtain ⟨x', hx', same⟩ := same
    rw [hx', Option.filter_some, Option.filter_some, isUnset_form same]
    split <;> simp [same]

theorem isGroup_form (same : (Table.get? r typeKey).map form = (Table.get? r' typeKey).map form) :
    isGroup r typeKey = isGroup r' typeKey := by
  have stated := congrArg Option.isNone (statedType?_form same)
  rwa [Option.isNone_map, Option.isNone_map] at stated

/-- Whether the elements of an array are a group of fields can be seen from their form. -/
theorem isInline_form (same : x.form = x'.form) (simple : Simple x) (simple' : Simple x')
    (bare : x.isBare = false) (bare' : x'.isBare = false) :
    isInline typeKey x = isInline typeKey x' := by
  have object {y y' : Definition δ} {fields : List (String × Definition δ)} (hy : y = object fields)
      (same : y.form = y'.form) (simple : Simple y) (simple' : Simple y')
      (bare' : y'.isBare = false) : isInline typeKey y = isInline typeKey y' := by
    subst hy
    obtain ⟨fields', rfl⟩ := object_of_form same.symm bare' simple'.schemas
    have length := (Json.perm_of_sorted_obj same).length_eq
    rw [Json.sortedFields_eq, Json.sortedFields_eq, fieldsJson_eq, fieldsJson_eq] at length
    have empty : fields.isEmpty = fields'.isEmpty := by
      rw [Bool.eq_iff_iff, List.isEmpty_iff_length_eq_zero, List.isEmpty_iff_length_eq_zero]
      simp only [Table.mapValues, List.length_map] at length
      rw [length]
    rw [isInline, isInline, empty,
      isGroup_form (fields_form same simple.neat.1 simple'.neat.1 typeKey)]
  cases x with
  | object fields => exact object rfl same simple simple' bare'
  | _ =>
    cases x' with
    | object fields' => exact (object rfl same.symm simple' simple bare).symm
    | _ => rfl

/-- An object that is no group of fields holds a type. -/
theorem exists_statedType? {fields : List (String × Definition δ)}
    (leaf : isInline typeKey (object fields) = false) (given : fields ≠ []) :
    ∃ x, statedType? fields typeKey = some x := by
  rw [← Option.isSome_iff_exists]
  have group : isGroup fields typeKey = false := by
    simpa [isInline, List.isEmpty_iff, given] using leaf
  simpa [isGroup] using group

/-! ### Records of one form -/

/-- Whether no array or object of JSON that was not taken apart stands in the place of a type. -/
def Legible (typeKey : String) (d : Definition δ) : Prop :=
  ∀ x, statedType? (d.record typeKey) typeKey = some x → x.isBare = false

theorem Legible.not_bare (h : Legible typeKey d) : d.isBare = false := by
  cases d with
  | literal v =>
    cases v with
    | arr vs => exact h _ (statedType?_of_get? (by simp [record, Table.get?]) rfl)
    | obj fs => exact h _ (statedType?_of_get? (by simp [record, Table.get?]) rfl)
    | _ => rfl
  | _ => rfl

theorem IsJson.legible (h : IsJson d) : Legible typeKey d := fun _ hx =>
  IsJson.not_bare (hereditary_isJson.record h _ (Table.mem_of_get? (get?_of_statedType? hx)))

theorem legible_of_shape {shape' : Shape δ} (h : shape typeKey path (d.record typeKey) = .ok shape') :
    Legible typeKey d := by
  intro x hx
  rw [shape, hx] at h
  cases x with
  | literal v =>
    cases v with
    | arr vs => cases h
    | obj fs => cases h
    | _ => rfl
  | _ => rfl

theorem record_of_not_object (h : ∀ fields, d ≠ object fields) :
    d.record typeKey = [(typeKey, d)] := by
  cases d with
  | object fields => exact absurd rfl (h fields)
  | _ => rfl

/-- A record whose type is no record is not unwrapped. -/
theorem unwrapped_of_not_object {fields : List (String × Definition δ)}
    (h : ∀ inner, statedType? fields typeKey ≠ some (object inner)) :
    unwrapped typeKey fields = fields := by
  unfold unwrapped
  split
  · next inner hi => exact absurd hi (h inner)
  · rfl

/-- A type that is a record is one in any object of that form. -/
theorem statedType?_object {fields fields' inner : List (String × Definition δ)}
    (same : ∀ key, (Table.get? fields key).map form = (Table.get? fields' key).map form)
    (simple' : ∀ e ∈ fields', Simple e.2) (legible' : Legible typeKey (object fields'))
    (h : statedType? fields typeKey = some (object inner)) :
    ∃ inner', statedType? fields' typeKey = some (object inner') ∧
      (object inner).form = (object inner').form := by
  have stated := statedType?_form (same typeKey)
  rw [h, Option.map_some, eq_comm, Option.map_eq_some_iff] at stated
  obtain ⟨x', hx', sameInner⟩ := stated
  have bare' : x'.isBare = false := by
    rw [Bool.eq_false_iff]
    intro bare
    -- what is bare is not unwrapped, so it would be read as the type
    have whole : unwrapped typeKey fields' = fields' := unwrapped_of_not_object fun inner hi => by
      cases hx'.symm.trans hi
      cases bare
    have := legible' x' (by rw [record, whole, hx'])
    rw [bare] at this
    cases this
  have flat := (simple' _ (Table.mem_of_get? (get?_of_statedType? hx'))).schemas
  obtain ⟨inner', rfl⟩ := object_of_form sameInner bare' flat
  exact ⟨inner', hx', sameInner.symm⟩

theorem unwrapped_form {fields fields' : List (String × Definition δ)}
    (same : ∀ key, (Table.get? fields key).map form = (Table.get? fields' key).map form)
    (simple : ∀ e ∈ fields, Simple e.2) (simple' : ∀ e ∈ fields', Simple e.2)
    (legible : Legible typeKey (object fields)) (legible' : Legible typeKey (object fields')) :
    ∀ key, (Table.get? (unwrapped typeKey fields) key).map form =
      (Table.get? (unwrapped typeKey fields') key).map form := by
  by_cases wrapped : ∃ inner, statedType? fields typeKey = some (object inner)
  · obtain ⟨inner, hi⟩ := wrapped
    obtain ⟨inner', hi', sameInner⟩ := statedType?_object same simple' legible' hi
    have neat := (simple _ (Table.mem_of_get? (get?_of_statedType? hi))).neat
    have neat' := (simple' _ (Table.mem_of_get? (get?_of_statedType? hi'))).neat
    have inside := fields_form sameInner neat.1 neat'.1
    rw [unwrapped, unwrapped, hi, hi']
    dsimp only
    rw [isGroup_form (inside typeKey)]
    split
    · exact same
    · exact inside
  · have wrapped' : ¬ ∃ inner, statedType? fields' typeKey = some (object inner) := by
      rintro ⟨inner, hi⟩
      obtain ⟨inner', hi', -⟩ := statedType?_object (fun key => (same key).symm) simple legible hi
      exact wrapped ⟨inner', hi'⟩
    rw [unwrapped_of_not_object fun inner hi => wrapped ⟨inner, hi⟩,
      unwrapped_of_not_object fun inner hi => wrapped' ⟨inner, hi⟩]
    exact same

theorem Neat.schemas (h : Neat d) : d.schemas = [] := by
  cases d with
  | object fields =>
    rw [Definition.schemas, List.eq_nil_iff_forall_not_mem]
    intro c hc
    obtain ⟨e, he, hc⟩ := mem_fieldSchemas.1 hc
    rw [(h.2 e he).schemas] at hc
    cases hc
  | type t => exact Simple.schemas h
  | schema s => exact Simple.schemas h
  | array items => exact Simple.schemas h
  | literal v => exact Simple.schemas h

/-- Definitions of one form have records of one form. -/
theorem record_form (same : d.form = d'.form) (neat : Neat d) (neat' : Neat d')
    (legible : Legible typeKey d) (legible' : Legible typeKey d') :
    ∀ key, (Table.get? (d.record typeKey) key).map form =
      (Table.get? (d'.record typeKey) key).map form := by
  by_cases hd : ∃ fields, d = object fields
  · obtain ⟨fields, rfl⟩ := hd
    obtain ⟨fields', rfl⟩ := object_of_form same.symm legible'.not_bare neat'.schemas
    exact unwrapped_form (fields_form same neat.1 neat'.1) neat.2 neat'.2 legible legible'
  · have hd' : ¬ ∃ fields, d' = object fields := by
      rintro ⟨fields', rfl⟩
      exact hd (object_of_form same legible.not_bare neat.schemas)
    rw [record_of_not_object fun fields h => hd ⟨fields, h⟩,
      record_of_not_object fun fields h => hd' ⟨fields, h⟩]
    intro key
    by_cases hk : typeKey = key <;> simp [Table.get?, hk, same]

end Definition

end DocSchema
