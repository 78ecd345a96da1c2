import DocSchema.Proofs.Schema.Steps

/-!
# Types and their names

A definition may hold a scalar type or the name of one, and it makes the same field either way
(`typeAt_name`, `typeAt_record_name`). The settings of a field are read from what its record is
shown as, and a type is shown as its name; so only the type itself has to be looked at.
-/

namespace DocSchema

open Definition

variable {δ : Type}

/-! ### Records that are shown alike -/

theorem Definition.isTrue_iff {d : Definition δ} : d.isTrue = true ↔ d.toJson = .bool true := by
  cases d with
  | literal v =>
    cases v with
    | bool b => cases b <;> simp [isTrue, toJson]
    | _ => simp [isTrue, toJson]
  | schema s => cases s; simp [isTrue, toJson, schemaJson]
  | _ => simp [isTrue, toJson]

theorem FieldIndex.switchedOn_iff {r : Table (Definition δ)} {key : String} :
    switchedOn r key = true ↔ (Table.get? r key).map toJson = some (.bool true) := by
  unfold switchedOn
  cases Table.get? r key with
  | none => simp
  | some d => simp [isTrue_iff]

theorem IndexSwitch.ofDefinition?_congr {x y : Option (Definition δ)}
    (h : x.map toJson = y.map toJson) : ofDefinition? x = ofDefinition? y := by
  cases x with
  | none =>
    cases y with
    | none => rfl
    | some e => cases h
  | some d =>
    cases y with
    | none => cases h
    | some e => simp only [ofDefinition?, Option.some.inj h]

/-- The index of a record depends on what the values under its keys are shown as. -/
theorem FieldIndex.ofRecord?_congr {r r' : Table (Definition δ)}
    (h : ∀ key ∈ Settings.indexKeys, (Table.get? r key).map toJson = (Table.get? r' key).map toJson)
    (isDate : Bool) : ofRecord? r isDate = ofRecord? r' isDate := by
  have flag : ∀ key ∈ Settings.indexKeys, switchedOn r key = switchedOn r' key := fun key there => by
    rw [Bool.eq_iff_iff, switchedOn_iff, switchedOn_iff, h key there]
  have switch := IndexSwitch.ofDefinition?_congr (h "index" (by decide))
  have expiry : ((Table.get? r "expires").bind fun d => Duration.expireAfterSeconds? d.toJson) =
      (Table.get? r' "expires").bind fun d => Duration.expireAfterSeconds? d.toJson := by
    have shown := congrArg (Option.bind · Duration.expireAfterSeconds?) (h "expires" (by decide))
    rw [Option.bind_map, Option.bind_map] at shown
    exact shown
  simp only [ofRecord?, addExpiry, addText, addFlag, flag "unique" (by decide),
    flag "sparse" (by decide), flag "text" (by decide), switch, expiry]

/-- What stands under the type key of a record counts for its settings only by what it is shown
as. -/
theorem Settings.ofRecord_congr_head {typeKey : String} {x y : Definition δ}
    (h : x.toJson = y.toJson) (rest : Table (Definition δ)) (scalar : Option Scalar) :
    ofRecord ((typeKey, x) :: rest) typeKey scalar =
      ofRecord ((typeKey, y) :: rest) typeKey scalar := by
  have index (isDate : Bool) : FieldIndex.ofRecord? ((typeKey, x) :: rest) isDate =
      FieldIndex.ofRecord? ((typeKey, y) :: rest) isDate := by
    refine FieldIndex.ofRecord?_congr (fun key _ => ?_) isDate
    by_cases hk : typeKey = key <;> simp [Table.get?, hk, h]
  simp [ofRecord, takeAll, isStructural, index]

/-! ### Named types -/

namespace TypeName

theorem ofName?_name (t : TypeName) : ofName? t.name = some t := by
  cases t with
  | scalar s => cases s <;> decide +kernel
  | mixed => decide +kernel
  | array => decide +kernel

theorem name_ne_mixed (t : TypeName) : t.name ≠ "mixed" := by
  cases t with
  | scalar s => cases s <;> decide
  | mixed => decide
  | array => decide

end TypeName

namespace Definition

/-- A record has the shape of its type, whether the type is given or only named. -/
theorem shape_name (typeKey path : String) (t : Scalar) (rest : Table (Definition δ)) :
    shape typeKey path ((typeKey, literal (.str t.name)) :: rest) =
      shape typeKey path ((typeKey, type (.scalar t)) :: rest) := by
  have stated (x : Definition δ) (hx : x.isUnset = false) :
      statedType? ((typeKey, x) :: rest) typeKey = some x :=
    statedType?_of_get? (by simp [Table.get?]) hx
  have named : TypeName.ofName? t.name = some (.scalar t) := TypeName.ofName?_name (.scalar t)
  have other : t.name ≠ "mixed" := TypeName.name_ne_mixed (.scalar t)
  rw [shape, shape, stated _ rfl, stated _ rfl]
  simp only [other, if_false, named]
  rfl

variable [Document δ]

/-- A definition makes a field through its record alone. -/
theorem typeAt_congr {o : Options} {path : String} {d d' : Definition δ}
    (sameShape : shape o.typeKey path (d.record o.typeKey) =
      shape o.typeKey path (d'.record o.typeKey))
    (sameSettings : ∀ scalar, Settings.ofRecord (d.record o.typeKey) o.typeKey scalar =
      Settings.ofRecord (d'.record o.typeKey) o.typeKey scalar) :
    d.typeAt o path = d'.typeAt o path := by
  have field : d.fieldAt o.typeKey path = d'.fieldAt o.typeKey path := by
    funext kind
    simp only [fieldAt, sameSettings]
  simp only [typeAt_eq, sameShape, field]

/-- A record makes the same field whether its scalar type is given or only named. -/
theorem typeAt_record_name (o : Options) (path : String) (t : Scalar)
    (rest : Table (Definition δ)) :
    (object ((o.typeKey, literal (.str t.name)) :: rest)).typeAt o path =
      (object ((o.typeKey, type (.scalar t)) :: rest)).typeAt o path := by
  have stated (x : Definition δ) (hx : x.isUnset = false) :
      statedType? ((o.typeKey, x) :: rest) o.typeKey = some x :=
    statedType?_of_get? (by simp [Table.get?]) hx
  have named : (object ((o.typeKey, literal (.str t.name)) :: rest)).record o.typeKey =
      (o.typeKey, literal (.str t.name)) :: rest := by
    rw [record, unwrapped, stated _ rfl]
  have given : (object ((o.typeKey, type (.scalar t)) :: rest)).record o.typeKey =
      (o.typeKey, type (.scalar t)) :: rest := by
    rw [record, unwrapped, stated _ rfl]
  refine typeAt_congr ?_ fun scalar => ?_
  · rw [named, given, shape_name]
  · rw [named, given]
    exact Settings.ofRecord_congr_head (by simp [toJson, TypeName.name]) rest scalar

/-- A scalar type makes the same field as its name. -/
theorem typeAt_name (o : Options) (path : String) (t : Scalar) :
    (literal (.str t.name) : Definition δ).typeAt o path =
      (type (.scalar t) : Definition δ).typeAt o path := by
  refine typeAt_congr (shape_name o.typeKey path t []) fun scalar => ?_
  exact Settings.ofRecord_congr_head (by simp [toJson, TypeName.name]) [] scalar

theorem typeAt_date (o : Options) (path : String) :
    ∃ t, (type (.scalar .date) : Definition δ).typeAt o path = .ok t := by
  have stated : statedType? [(o.typeKey, (type (.scalar .date) : Definition δ))] o.typeKey =
      some (.type (.scalar .date)) := statedType?_of_get? (by simp [Table.get?]) rfl
  rw [typeAt_eq, record, shape, stated]
  · exact ⟨_, rfl⟩
  · simp

/-- The identifier field is read from what it is shown as. -/
theorem typeAt_idDefinition (o : Options) (path : String) :
    (ofJson (Schema.idDefinition o.typeKey : Definition δ).toJson : Definition δ).typeAt o path =
      (Schema.idDefinition o.typeKey).typeAt o path := by
  by_cases hk : o.typeKey = "auto"
  · simp [Schema.idDefinition, Table.insert, hk, toJson, fieldsJson, ofJson, ofFields]
  · simp only [Schema.idDefinition, Table.insert, hk, if_false, toJson, fieldsJson, ofJson, ofFields]
    exact typeAt_record_name o path .objectId [("auto", .literal (.bool true))]

end Definition

end DocSchema
