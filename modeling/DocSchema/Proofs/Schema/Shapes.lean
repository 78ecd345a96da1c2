import DocSchema.Proofs.Schema.Forms

/-!
# Shapes and indexes of one form

Records of one form have shapes that differ in the elements of arrays alone, and those have one form
again (`shape_form`). A type counts by its name here. Their indexes say the same
(`FieldIndex.ofRecord?_form`): an index is read from what its record is shown as, and it is read key
by key, so the order of keys does not count.
-/

namespace DocSchema

open Definition

variable {δ : Type} {typeKey path : String} {r r' : Table (Definition δ)}

/-! ### Shapes -/

namespace Shape

/-- Shapes that are the same but for the order of keys in the element of an array. -/
inductive Alike : Shape δ → Shape δ → Prop
  | plain (kind : FieldKind δ) : Alike (.plain kind) (.plain kind)
  | anyArray : Alike .anyArray .anyArray
  | arrayOf {x x' : Definition δ} (same : x.form = x'.form) : Alike (.arrayOf x) (.arrayOf x')

theorem ofElement?_form {x x' : Option (Definition δ)} (same : x.map form = x'.map form) :
    Alike (ofElement? x) (ofElement? x') := by
  cases x with
  | none =>
    rw [Option.map_none, eq_comm, Option.map_eq_none_iff] at same
    rw [same]
    exact .anyArray
  | some d =>
    rw [Option.map_some, eq_comm, Option.map_eq_some_iff] at same
    obtain ⟨d', rfl, same⟩ := same
    rw [ofElement?, ofElement?, isUnset_form same]
    split
    · exact .anyArray
    · exact .arrayOf same.symm

theorem ofTypeName_form {cast cast' : Option (Definition δ)} (same : cast.map form = cast'.map form)
    (t : TypeName) : Alike (ofTypeName cast t) (ofTypeName cast' t) := by
  cases t with
  | scalar s => exact .plain _
  | mixed => exact .plain _
  | array => exact ofElement?_form same

/-- The shape of a type that is given by its name. -/
def ofText? (cast : Option (Definition δ)) (name : String) : Option (Shape δ) :=
  if name = "mixed" then some (.plain .mixed) else (TypeName.ofName? name).map (ofTypeName cast)

theorem ofText?_form {cast cast' : Option (Definition δ)} (same : cast.map form = cast'.map form)
    {name : String} {shape : Shape δ} (h : ofText? cast name = some shape) :
    ∃ shape', ofText? cast' name = some shape' ∧ shape.Alike shape' := by
  unfold ofText? at h ⊢
  split at h
  · next mixed =>
    cases h
    exact ⟨_, if_pos mixed, .plain _⟩
  · next other =>
    obtain ⟨t, ht, rfl⟩ := Option.map_eq_some_iff.1 h
    exact ⟨_, by rw [if_neg other, ht]; rfl, ofTypeName_form same t⟩

end Shape

namespace Definition

/-- A type and the name of one have the same shape. -/
theorem shape_of_text {x : Definition δ} {name : String}
    (stated : statedType? r typeKey = some x) (text : x.toJson = .str name) :
    shape typeKey path r =
      match Shape.ofText? (statedElement? r) name with
      | some shape' => .ok shape'
      | none => .error (unknownType name path) := by
  rw [shape, stated, Shape.ofText?]
  cases x with
  | type t =>
    obtain rfl : t.name = name := Json.str.inj text
    simp [t.name_ne_mixed, t.ofName?_name]
  | literal v =>
    obtain rfl : v = .str name := text
    by_cases mixed : name = "mixed"
    · simp [mixed]
    · cases ht : TypeName.ofName? name <;> simp [mixed, ht]
  | schema s => cases s; cases text
  | array items => cases text
  | object fields => cases text

theorem statedElement?_form
    (same : ∀ key, (Table.get? r key).map form = (Table.get? r' key).map form) :
    (statedElement? r).map form = (statedElement? r').map form :=
  same "cast"

/-- Records of one form have shapes that are alike. -/
theorem shape_form (same : ∀ key, (Table.get? r key).map form = (Table.get? r' key).map form)
    (flat : ∀ e ∈ r, e.2.schemas = []) (flat' : ∀ e ∈ r', e.2.schemas = [])
    (legible' : ∀ x, statedType? r' typeKey = some x → x.isBare = false) {shape₁ : Shape δ}
    (h : shape typeKey path r = .ok shape₁) :
    ∃ shape₂, shape typeKey path r' = .ok shape₂ ∧ shape₁.Alike shape₂ := by
  have cast : (statedElement? r).map form = (statedElement? r').map form :=
    statedElement?_form same
  have stated := statedType?_form (same typeKey)
  cases hx : statedType? r typeKey with
  | none =>
    rw [hx, Option.map_none, eq_comm, Option.map_eq_none_iff] at stated
    rw [shape, hx] at h
    cases h
    exact ⟨.plain .mixed, by rw [shape, stated], .plain _⟩
  | some x =>
    rw [hx, Option.map_some, eq_comm, Option.map_eq_some_iff] at stated
    obtain ⟨x', hx', sameType⟩ := stated
    have bare' := legible' x' hx'
    have noSchema' : x'.schemas = [] := flat' _ (Table.mem_of_get? (get?_of_statedType? hx'))
    -- a type that is read as a text is read as the same text in the other record
    have text {name : String} (hn : x.toJson = .str name) :
        ∃ shape₂, shape typeKey path r' = .ok shape₂ ∧ shape₁.Alike shape₂ := by
      have hn' : x'.toJson = .str name := form_eq_text (sameType.trans (congrArg Json.sorted hn))
      rw [shape_of_text hx hn] at h
      rw [shape_of_text hx' hn']
      cases read : Shape.ofText? (statedElement? r) name with
      | none =>
        rw [read] at h
        cases h
      | some shape₁ =>
        rw [read] at h
        cases h
        obtain ⟨shape₂, read', alike⟩ := Shape.ofText?_form cast read
        exact ⟨shape₂, by rw [read'], alike⟩
    cases x with
    | type t => exact text rfl
    | literal v =>
      cases v with
      | str name => exact text rfl
      | _ => rw [shape, hx] at h; cases h
    | object fields =>
      rw [shape, hx] at h
      cases h
      obtain ⟨fields', rfl⟩ := object_of_form sameType bare' noSchema'
      exact ⟨.plain .mixed, by rw [shape, hx'], .plain _⟩
    | array items =>
      rw [shape, hx] at h
      cases h
      obtain ⟨items', rfl, sameItems⟩ := array_of_form sameType.symm bare' noSchema'
      refine ⟨Shape.ofElement? items'.head?, by rw [shape, hx'], Shape.ofElement?_form ?_⟩
      rw [← List.head?_map, ← List.head?_map, sameItems]
    | schema s => cases flat _ (Table.mem_of_get? (get?_of_statedType? hx))

end Definition

/-! ### Indexes -/

theorem Direction.ofJson?_sorted (v : Json) : ofJson? v.sorted = ofJson? v := by
  cases v <;> rfl

theorem Duration.expireAfterSeconds?_sorted (v : Json) :
    expireAfterSeconds? v.sorted = expireAfterSeconds? v := by
  cases v <;> rfl

theorem Json.eq_bool_of_sorted {v : Json} {b : Bool} (h : v.sorted = .bool b) : v = .bool b := by
  cases v <;> cases h
  rfl

namespace IndexSwitch

/-- What an index says that is declared by an object does not depend on the order of its keys. -/
theorem content_ofOptions {options options' : Table Json}
    (same : ∀ key, (Table.get? options key).map Json.sorted =
      (Table.get? options' key).map Json.sorted)
    (distinct : (Table.keys options).Nodup) (distinct' : (Table.keys options').Nodup) :
    (ofOptions options).content = (ofOptions options').content := by
  have erased {options : Table Json} (distinct : (Table.keys options).Nodup) (key : String) :
      Table.get? (Table.swapErase (Table.swapErase options "type") "text") key =
        if key = "text" then none else if key = "type" then none else Table.get? options key := by
    rw [Table.get?_swapErase (Table.nodup_keys_swapErase distinct _),
      Table.get?_swapErase distinct]
  have text {options : Table Json} (distinct : (Table.keys options).Nodup) :
      Table.get? (Table.swapErase options "type") "text" = Table.get? options "text" := by
    rw [Table.get?_swapErase distinct, if_neg (by decide)]
  have kind : (Table.get? options "type").bind Direction.ofJson? =
      (Table.get? options' "type").bind Direction.ofJson? := by
    have := congrArg (Option.bind · Direction.ofJson?) (same "type")
    simpa only [Option.bind_map, Function.comp_def, Direction.ofJson?_sorted] using this
  have isText : Table.get? options "text" = some (.bool true) ↔
      Table.get? options' "text" = some (.bool true) := by
    have marked (x : Option Json) : x = some (.bool true) ↔ x.map Json.sorted = some (.bool true) := by
      rw [Option.map_eq_some_iff]
      exact ⟨fun h => ⟨_, h, rfl⟩, fun ⟨v, h, hv⟩ => by rw [h, Json.eq_bool_of_sorted hv]⟩
    rw [marked (Table.get? options "text"), same, ← marked]
  refine Prod.ext ?_ (funext fun key => ?_)
  · simp only [FieldIndex.content, ofOptions, text distinct, text distinct', kind]
    by_cases marked : Table.get? options "text" = some (.bool true)
    · rw [marked, isText.1 marked]
    · have marked' := mt isText.2 marked
      split
      · next h => exact absurd h marked
      · rfl
  · simp only [FieldIndex.content, ofOptions, erased distinct, erased distinct']
    split
    · rfl
    · split
      · rfl
      · exact same key

end IndexSwitch

namespace FieldIndex

theorem content_withOption (i : Option FieldIndex) (key : String) (v : Json) :
    (withOption i key v).map content = some (((i.map content).getD (content {})).1,
      fun k => if k = key then some v.sorted else ((i.map content).getD (content {})).2 k) := by
  have put (i : FieldIndex) : content { i with options := Table.insert i.options key v } =
      (i.content.1, fun k => if k = key then some v.sorted else i.content.2 k) := by
    refine Prod.ext rfl (funext fun k => ?_)
    by_cases hk : k = key
    · subst hk
      simp [content]
    · simp [content, hk, Table.get?_insert_of_ne _ _ hk]
  cases i with
  | none => exact congrArg some (put {})
  | some i => exact congrArg some (put i)

theorem withOption_congr {i i' : Option FieldIndex} (h : i.map content = i'.map content)
    (key : String) (v : Json) :
    (withOption i key v).map content = (withOption i' key v).map content := by
  rw [content_withOption, content_withOption, h]

theorem switchedOn_form (same : ∀ key, (Table.get? r key).map form = (Table.get? r' key).map form)
    (key : String) : switchedOn r key = switchedOn r' key := by
  have marked (r : Table (Definition δ)) :
      switchedOn r key = true ↔ (Table.get? r key).map form = some (.bool true) := by
    rw [switchedOn_iff, Option.map_eq_some_iff, Option.map_eq_some_iff]
    exact exists_congr fun d => and_congr_right fun _ =>
      ⟨congrArg Json.sorted, Json.eq_bool_of_sorted⟩
  rw [Bool.eq_iff_iff, marked, marked, same]

section

variable (same : ∀ key, (Table.get? r key).map form = (Table.get? r' key).map form)
  {i i' : Option FieldIndex} (h : i.map content = i'.map content)

include same h

theorem addFlag_form (name : String) :
    (addFlag r name i).map content = (addFlag r' name i').map content := by
  rw [addFlag, addFlag, switchedOn_form same]
  split
  · exact withOption_congr h name _
  · exact h

theorem addText_form : (addText r i).map content = (addText r' i').map content := by
  rw [addText, addText, switchedOn_form same]
  split
  · have options : (i.getD {}).content.2 = (i'.getD {}).content.2 := by
      have := congrArg (fun c => (c.getD (content {})).2) h
      cases i <;> cases i' <;> exact this
    exact congrArg some (Prod.ext rfl options)
  · exact h

theorem addExpiry_form (isDate : Bool) :
    (addExpiry r isDate i).map content = (addExpiry r' isDate i').map content := by
  have expiry : ((Table.get? r "expires").bind fun d => Duration.expireAfterSeconds? d.toJson) =
      (Table.get? r' "expires").bind fun d => Duration.expireAfterSeconds? d.toJson := by
    have := congrArg (Option.bind · Duration.expireAfterSeconds?) (same "expires")
    simpa only [Option.bind_map, Function.comp_def, form, Duration.expireAfterSeconds?_sorted] using
      this
  rw [addExpiry, addExpiry, expiry]
  split
  · split
    · exact withOption_congr h _ _
    · exact h
  · exact h

/-- What a record adds to an index depends on its form alone. -/
theorem extend_form (isDate : Bool) :
    (addExpiry r isDate (addText r (addFlag r "sparse" (addFlag r "unique" i)))).map content =
      (addExpiry r' isDate (addText r' (addFlag r' "sparse" (addFlag r' "unique" i')))).map
        content :=
  addExpiry_form same (addText_form same (addFlag_form same (addFlag_form same h _) _)) isDate

end

/-- The switches that stand under the key of the index in two records of one form. -/
theorem switch_form {x x' : Option (Definition δ)} (same : x.map form = x'.map form)
    (tidy : ∀ d, x = some d → d.toJson.Tidy) (tidy' : ∀ d, x' = some d → d.toJson.Tidy) :
    (IndexSwitch.ofDefinition? x = .off ∧ IndexSwitch.ofDefinition? x' = .off) ∨
      (IndexSwitch.ofDefinition? x = .unsaid ∧ IndexSwitch.ofDefinition? x' = .unsaid) ∨
      ∃ i i', IndexSwitch.ofDefinition? x = .on i ∧ IndexSwitch.ofDefinition? x' = .on i' ∧
        i.content = i'.content := by
  cases x with
  | none =>
    rw [Option.map_none, eq_comm, Option.map_eq_none_iff] at same
    subst same
    exact .inr (.inl ⟨rfl, rfl⟩)
  | some d =>
    rw [Option.map_some, eq_comm, Option.map_eq_some_iff] at same
    obtain ⟨d', rfl, same⟩ := same
    have tidy := tidy d rfl
    have tidy' := tidy' d' rfl
    unfold form at same
    simp only [IndexSwitch.ofDefinition?]
    revert same tidy tidy'
    generalize d.toJson = v
    generalize d'.toJson = v'
    intro same tidy tidy'
    cases v with
    | null => cases v' <;> cases same; exact .inl ⟨rfl, rfl⟩
    | bool b =>
      cases v' <;> cases same
      cases b with
      | false => exact .inl ⟨rfl, rfl⟩
      | true => exact .inr (.inr ⟨_, _, rfl, rfl, rfl⟩)
    | num n => cases v' <;> cases same; exact .inr (.inr ⟨_, _, rfl, rfl, rfl⟩)
    | str s => cases v' <;> cases same; exact .inr (.inr ⟨_, _, rfl, rfl, rfl⟩)
    | arr items =>
      cases v' with
      | arr items' => exact .inr (.inr ⟨_, _, rfl, rfl, rfl⟩)
      | _ => cases same
    | obj options =>
      cases v' with
      | obj options' =>
        have keys := (Json.sorted_obj_iff tidy.1 tidy'.1).1 same.symm
        exact .inr (.inr ⟨_, _, rfl, rfl, IndexSwitch.content_ofOptions keys tidy.1 tidy'.1⟩)
      | _ => cases same

/-- Records of one form have indexes that say the same. -/
theorem ofRecord?_form (same : ∀ key, (Table.get? r key).map form = (Table.get? r' key).map form)
    (tidy : ∀ e ∈ r, e.2.toJson.Tidy) (tidy' : ∀ e ∈ r', e.2.toJson.Tidy) (isDate : Bool) :
    (ofRecord? r isDate).map content = (ofRecord? r' isDate).map content := by
  have switch := switch_form (same "index") (fun d hd => tidy _ (Table.mem_of_get? hd))
    (fun d hd => tidy' _ (Table.mem_of_get? hd))
  unfold ofRecord?
  rcases switch with ⟨h, h'⟩ | ⟨h, h'⟩ | ⟨i, i', h, h', sameIndex⟩
  · rw [h, h']
  · rw [h, h']
    exact extend_form same rfl isDate
  · rw [h, h']
    have said : (some i).map content = (some i').map content := congrArg some sameIndex
    exact extend_form same said isDate

end FieldIndex

/-! ### Fields -/

namespace Settings

theorem index_take (s : Settings) (key : String) (d : Definition δ) :
    (s.take key d).index = s.index := by
  unfold take
  repeat' split
  all_goals rfl

theorem index_takeAll (typeKey : String) : ∀ (entries : List (String × Definition δ)) (s : Settings),
    (takeAll typeKey s entries).index = s.index
  | [], _ => rfl
  | (key, d) :: rest, s => by
    rw [takeAll, index_takeAll typeKey rest]
    split
    · rfl
    · exact index_take s key d

theorem index_ofRecord (record : Table (Definition δ)) (typeKey : String) (scalar : Option Scalar) :
    (ofRecord record typeKey scalar).index =
      FieldIndex.ofRecord? record (scalar = some .date) :=
  index_takeAll typeKey record _

end Settings

theorem FieldKind.Compatible.scalar? {kind kind' : FieldKind δ} (h : kind.Compatible kind') :
    kind.scalar? = kind'.scalar? := by
  cases h <;> rfl

/-- Definitions of one form make compatible fields, if the kinds are. -/
theorem Definition.fieldAt_form {d d' : Definition δ} (same : d.form = d'.form) (neat : Neat d)
    (neat' : Neat d') (legible : Legible typeKey d) (legible' : Legible typeKey d')
    {kind kind' : FieldKind δ} (h : kind.Compatible kind') :
    (d.fieldAt typeKey path kind).Compatible (d'.fieldAt typeKey path kind') := by
  have index := FieldIndex.ofRecord?_form (record_form same neat neat' legible legible')
    (fun e he => ((neat.record typeKey).2 e he).tidy)
    (fun e he => ((neat'.record typeKey).2 e he).tidy)
    (kind.scalar? = some .date)
  refine .intro h ?_
  rw [Settings.index_ofRecord, Settings.index_ofRecord, ← h.scalar?]
  exact index

end DocSchema
