import DocSchema.Proofs.Schema.Automatic
import DocSchema.Proofs.Schema.Respelling

/-!
# The type key

Which key holds the types of a definition is a matter of spelling. Where a key stands for types
wherever it is used, every use of it may be replaced by another key that is used nowhere, if the
schema is compiled with the other key: the result is the same error or the same schema, with another
type key and with a tree that is spelled so (`compile_respelled`). That holds at every depth, since
the elements of an array are compiled with the type key of the schema around them.

The two compilers need each other. A field goes together with a change of the key if the groups do
that its elements are written as (`arrayKind_rename`), and a group does if its fields do
(`compile_of_types`); `typeAt_rename` is the induction over both.
-/

namespace DocSchema

open Definition

variable {δ : Type} {old new : String} {keep : Json → Json} {o : Options} {d : Definition δ}

/-! ### Assembling -/

namespace Schema

theorem idDefinition_eq (notAuto : old ≠ "auto") : (idDefinition old : Definition δ) =
    .object [(old, .type (.scalar .objectId)), ("auto", .literal (.bool true))] := by
  rw [idDefinition, Table.insert, if_neg notAuto]
  rfl

/-- The identifier is defined with the type key of the schema. -/
theorem idDefinition_rename (notAuto : old ≠ "auto") (notAuto' : new ≠ "auto") :
    (idDefinition old : Definition δ).rename old new = idDefinition new := by
  rw [idDefinition_eq notAuto, idDefinition_eq notAuto', rename, renameFields, renameFields,
    renameFields, Table.renameKey_old, Table.renameKey_of_ne notAuto.symm]
  rfl

theorem spelled_idDefinition (notAuto : old ≠ "auto") (notAuto' : new ≠ "auto")
    (kept : keep (.bool true) = .bool true) :
    Spelled old new keep (idDefinition old : Definition δ) ∧
      isInline old (idDefinition old : Definition δ) = false := by
  have stated : statedType? [(old, (.type (.scalar .objectId) : Definition δ)),
      ("auto", .literal (.bool true))] old = some (.type (.scalar .objectId)) :=
    statedType?_of_get? (by simp [Table.get?]) rfl
  rw [idDefinition_eq notAuto, isInline, isGroup_of_stated stated]
  refine ⟨.record stated ?_ ?_ ?_, rfl⟩
  · simp [notAuto'.symm]
  · intro e there _
    rcases List.mem_pair.1 there with rfl | rfl
    · exact .type _
    · exact .literal _
  · intro e there notOld _
    rcases List.mem_pair.1 there with rfl | rfl
    · exact absurd rfl notOld
    · exact ⟨kept.symm, fun _ => rfl⟩

variable {s : Schema δ} (notOption : old ∉ Settings.optionKeys)
  (notOption' : new ∉ Settings.optionKeys) (kept : keep (.bool true) = .bool true)
  (typeKey : s.options.typeKey = old)

include notOption notOption' kept typeKey in
theorem addIdField_rekey :
    (s.rekey old new keep).addIdField = (s.addIdField.1.rekey old new keep, s.addIdField.2) := by
  have notAuto : old ≠ "auto" := fun h => notOption (h ▸ by decide)
  have notAuto' : new ≠ "auto" := fun h => notOption' (h ▸ by decide)
  obtain ⟨spelled, single⟩ := spelled_idDefinition (δ := δ) notAuto notAuto' kept
  have entry : TypedEntry.rekey old new keep
        (.field "_id" (idDefinition old) ((idDefinition old).plainTypeAt old "_id")) =
      .field "_id" (idDefinition new : Definition δ) ((idDefinition new).plainTypeAt new "_id") := by
    rw [TypedEntry.rekey, Entry.map, ← plainTypeAt_rename notOption notOption' "_id" spelled single,
      idDefinition_rename notAuto notAuto']
  simp only [addIdField, rekey_options, contains_rekey_fields, rekey_groups, typeKey, ← entry,
    register_rekey]
  split <;> rfl

theorem addIdVirtual_rekey :
    (s.rekey old new keep).addIdVirtual =
      (s.addIdVirtual.1.rekey old new keep, s.addIdVirtual.2) := by
  rw [addIdVirtual, addIdVirtual, extendVirtual_rekey, rekey_options, rekey_tree, Tree.get?_map]
  simp only [Option.isNone_map]
  split
  · rcases s.extendVirtual "id" [] [idText] [] with ⟨s', _ | _⟩ <;> rfl
  · rfl

include notOption notOption' typeKey in
theorem addStampFields_rekey :
    (s.rekey old new keep).addStampFields =
      (s.addStampFields.1.rekey old new keep, s.addStampFields.2) := by
  have entry (path : String) : dateEntry new path =
      TypedEntry.rekey old new keep (dateEntry old path : TypedEntry δ) := by
    rw [dateEntry, dateEntry, TypedEntry.rekey, Entry.map,
      ← plainTypeAt_rename notOption notOption' path (.type _) rfl]
    rfl
  rw [addStampFields, addStampFields, rekey_options]
  cases s.options.timestamps.fields? with
  | none => rfl
  | some paths =>
    obtain ⟨created, updated⟩ := paths
    have samePaths : (s.rekey old new keep).stampPaths created updated =
        s.stampPaths created updated := by
      rw [stampPaths, stampPaths, contains_rekey_fields]
    simp only [samePaths, typeKey, funext entry, ← registerAll_rekey, List.map_map]
    rfl

variable [Document δ]

theorem addBuiltIn_rekey : (s.rekey old new keep).addBuiltIn = s.addBuiltIn.rekey old new keep := by
  simp only [addBuiltIn, rekey_eq]

theorem addStampHook_rekey :
    (s.rekey old new keep).addStampHook = s.addStampHook.rekey old new keep := by
  rw [addStampHook, addStampHook, rekey_options]
  cases s.options.timestamps.fields? with
  | none => rfl
  | some paths => simp only [rekey_eq]

end Schema

/-! ### Types -/

namespace Definition

/-- The kind of an array goes together with a change of the type key where its elements do. -/
theorem arrayKind_rename [Document δ] (path : String) (h : Spelled o.typeKey new keep d)
    (inline : isInline o.typeKey d = true →
      Schema.compile { o.forChild with typeKey := new } (d.rename o.typeKey new) =
        (Schema.compile o.forChild d).map (Schema.rekey o.typeKey new keep))
    (single : isInline o.typeKey d = false →
      (d.rename o.typeKey new).typeAt { o with typeKey := new } path =
        (d.typeAt o path).map (FieldType.rekey o.typeKey new keep)) :
    arrayKind { o with typeKey := new } path (d.rename o.typeKey new) =
      (arrayKind o path d).map (FieldKind.rekey o.typeKey new keep) := by
  have opened : arrayKind o path d =
      if isInline o.typeKey d then (Schema.compile o.forChild d).map .documents
      else (d.typeAt o path).map .array := by
    cases h <;> rfl
  have opened' : arrayKind { o with typeKey := new } path (d.rename o.typeKey new) =
      if isInline new (d.rename o.typeKey new) then
        (Schema.compile { o.forChild with typeKey := new } (d.rename o.typeKey new)).map .documents
      else ((d.rename o.typeKey new).typeAt { o with typeKey := new } path).map .array := by
    cases h <;> rfl
  rw [opened, opened', isInline_rename h]
  split
  · next isInline =>
    rw [inline isInline]
    cases Schema.compile o.forChild d <;> rfl
  · next isSingle =>
    rw [single (Bool.not_eq_true _ ▸ isSingle)]
    cases d.typeAt o path <;> rfl

end Definition

section

variable [Document δ] (notOption : o.typeKey ∉ Settings.optionKeys)
  (notOption' : new ∉ Settings.optionKeys) (kept : keep (.bool true) = .bool true)
include notOption notOption' kept

/-- Assembling a schema goes together with a change of the type key. -/
theorem Schema.assemble_rekey (es : List (TypedEntry δ)) :
    assemble { o with typeKey := new } (es.map (TypedEntry.rekey o.typeKey new keep)) =
      (assemble o es).map (rekey o.typeKey new keep) := by
  have start : (empty { o with typeKey := new } : Schema δ) =
      (empty o).rekey o.typeKey new keep := by
    rw [rekey_eq]
    rfl
  rw [assemble, assemble, start, registerAll_rekey]
  rcases declared : (empty o).registerAll es with ⟨s₁, _ | _⟩
  · rfl
  have typeKey₁ : s₁.options.typeKey = o.typeKey := by
    rw [options_registerAll declared]
    rfl
  dsimp only
  rw [addIdField_rekey notOption notOption' kept typeKey₁]
  rcases identified : s₁.addIdField with ⟨s₂, _ | _⟩
  · rfl
  have typeKey₂ : s₂.options.typeKey = o.typeKey := by
    rw [options_addIdField identified, typeKey₁]
  dsimp only
  rw [addIdVirtual_rekey]
  rcases shown : s₂.addIdVirtual with ⟨s₃, _ | _⟩
  · rfl
  have typeKey₃ : s₃.addBuiltIn.options.typeKey = o.typeKey := by
    show s₃.options.typeKey = o.typeKey
    rw [(showsId_addIdVirtual shown).options, typeKey₂]
  dsimp only
  rw [addBuiltIn_rekey, addStampFields_rekey notOption notOption' typeKey₃]
  rcases s₃.addBuiltIn.addStampFields with ⟨s₄, _ | _⟩
  · rfl
  · exact congrArg Except.ok addStampHook_rekey

namespace Definition

/-- A group of fields whose types go together with a change of the type key is compiled so. -/
theorem compile_of_types {fields : List (String × Definition δ)}
    (apart : ∀ e ∈ fields, e.1 ≠ o.typeKey ∧ e.1 ≠ new)
    (inner : ∀ e ∈ fields, Spelled o.typeKey new keep e.2)
    (types : ∀ p x u, .field p x u ∈ entries o.typeKey "" fields →
      (x.rename o.typeKey new).typeAt { o with typeKey := new } p =
        (x.typeAt o p).map (FieldType.rekey o.typeKey new keep)) :
    Schema.compile { o with typeKey := new } ((object fields).rename o.typeKey new) =
      (Schema.compile o (.object fields)).map (Schema.rekey o.typeKey new keep) := by
  rw [rename, Schema.compile, Schema.compile, ← Schema.assemble_rekey notOption notOption' kept,
    entries_rename "" fields apart inner, List.map_map, List.map_map]
  congr 1
  apply List.map_congr_left
  intro e there
  cases e with
  | field p x u => exact congrArg (Entry.field p _) (types p x u there)
  | _ => rfl

end Definition

end

namespace Definition

variable [Document δ]

/-- A field that is spelled with another key is compiled to the same field. -/
theorem typeAt_rename (o : Options) (notOption : o.typeKey ∉ Settings.optionKeys)
    (notOption' : new ∉ Settings.optionKeys) (kept : keep (.bool true) = .bool true)
    (path : String) (d : Definition δ) (h : Spelled o.typeKey new keep d)
    (single : isInline o.typeKey d = false) :
    (d.rename o.typeKey new).typeAt { o with typeKey := new } path =
      (d.typeAt o path).map (FieldType.rekey o.typeKey new keep) := by
  obtain ⟨sameRecord, spelled⟩ := record_rename h single
  have field := fieldAt_rename notOption notOption' path h single
  have notCast : o.typeKey ≠ "cast" := fun isCast => notOption (isCast ▸ by decide)
  rw [typeAt_eq, typeAt_eq, sameRecord, shape_rename notOption notOption' path spelled]
  rcases shaped : shape o.typeKey path (d.record o.typeKey) with e | kind | _ | element
  · rfl
  · exact congrArg Except.ok (field kind)
  · exact congrArg Except.ok (field (.array (anything path)))
  · have smaller := sizeOf_lt_of_shape_record shaped (isCircular_of_ne notCast element)
    have within := spelled.element shaped
    have inline (isInline : isInline o.typeKey element = true) :
        Schema.compile { o.forChild with typeKey := new } (element.rename o.typeKey new) =
          (Schema.compile o.forChild element).map (Schema.rekey o.typeKey new keep) := by
      obtain ⟨fields, rfl, apart, inner⟩ := apart_of_inline within isInline
      refine compile_of_types (o := o.forChild) notOption notOption' kept apart inner
        fun p x u there => ?_
      have smallest : sizeOf x < sizeOf d := by
        have inside := sizeOf_lt_of_mem_entries fields there
        rw [object.sizeOf_spec] at smaller
        omega
      obtain ⟨within, single⟩ := spelled_of_mem_entries fields inner there
      exact typeAt_rename o.forChild notOption notOption' kept p x within single
    have kind := arrayKind_rename path within inline
      (typeAt_rename o notOption notOption' kept path element within)
    show (arrayKind _ path _).map _ = ((arrayKind o path element).map _).map _
    rw [kind]
    cases arrayKind o path element with
    | error e => rfl
    | ok kind => exact congrArg Except.ok (field kind)
termination_by sizeOf d

end Definition

/-! ### Definitions from JSON -/

namespace Schema

variable [Document δ]

/-- The schema that the fields of a JSON object make with a type key. -/
def compileWith (o : Options) (typeKey : String) (fields : List (String × Json)) :
    Except SchemaError (Schema δ) :=
  compile { o with typeKey := typeKey } (ofJson (.obj fields))

section

variable {k₁ k₂ : String} {fields : List (String × Json)} {other : Json → Prop}

/-- Fields that are spelled with another type key make the same schema with that key, except for
what may become of the settings that use the old one. -/
theorem compileWith_rename (o : Options) (notOption₁ : k₁ ∉ Settings.optionKeys)
    (notOption₂ : k₂ ∉ Settings.optionKeys) (unused : Json.FieldsLack k₂ fields)
    (root : k₁ ∉ Table.keys fields) (kept : KeptAs k₁ k₂ other keep)
    (typed : Json.TypedBy k₁ other (.obj fields)) :
    (compileWith o k₂ (Json.renameFields k₁ k₂ fields) : Except SchemaError (Schema δ)) =
      (compileWith o k₁ fields).map (rekey k₁ k₂ keep) := by
  have keptTrue : keep (.bool true) = .bool true := kept.lacking _ trivial
  have spelled : Spelled k₁ k₂ keep (.object (ofFields fields) : Definition δ) :=
    spelled_ofJson kept (.obj fields) typed unused
  rw [compileWith, compileWith, ofJson, ofJson, ofFields_rename]
  cases spelled with
  | record stated unused typed settings =>
    have there := Table.mem_keys.2 ⟨_, Table.mem_of_get? (get?_of_statedType? stated)⟩
    rw [keys_ofFields] at there
    exact absurd there root
  | group apart inner =>
    refine compile_of_types (o := { o with typeKey := k₁ }) notOption₁ notOption₂ keptTrue apart
      inner fun p x u there => ?_
    obtain ⟨within, single⟩ := spelled_of_mem_entries _ inner there
    exact typeAt_rename { o with typeKey := k₁ } notOption₁ notOption₂ keptTrue p x within single

/-- Fields that are typed by a key make the same schema, or the same error, if they are spelled and
compiled with another one. Settings that have no place of their own are spelled with the new key
where they used the old one; if none does, all settings are the same. -/
theorem compile_respelled (o : Options) (notOption₁ : k₁ ∉ Settings.optionKeys)
    (notOption₂ : k₂ ∉ Settings.optionKeys) (unused : Json.FieldsLack k₂ fields)
    (root : k₁ ∉ Table.keys fields) (typed : Json.TypedBy k₁ (fun _ => True) (.obj fields)) :
    (compileWith o k₂ (Json.renameFields k₁ k₂ fields) : Except SchemaError (Schema δ)) =
        (compileWith o k₁ fields).map (rekey k₁ k₂ (Json.rename k₁ k₂)) ∧
      (Json.TypedBy k₁ (Json.Lacks k₁) (.obj fields) →
        (compileWith o k₂ (Json.renameFields k₁ k₂ fields) : Except SchemaError (Schema δ)) =
            (compileWith o k₁ fields).map (rekey k₁ k₂ id) ∧
          ∀ t : FieldType δ, (t.rekey k₁ k₂ id).settings = t.settings) ∧
      ∀ s s' : Schema δ, compileWith o k₁ fields = .ok s →
        compileWith o k₂ (Json.renameFields k₁ k₂ fields) = .ok s' →
        s'.options = { s.options with typeKey := k₂ } ∧
          Table.keys s'.fields = Table.keys s.fields ∧ s'.groups = s.groups ∧
          s'.virtuals = s.virtuals ∧ s'.indexes = s.indexes := by
  have renamed : KeptAs k₁ k₂ (fun _ => True) (Json.rename k₁ k₂) :=
    ⟨Json.rename_of_lacks, fun _ _ => rfl⟩
  have untouched : KeptAs k₁ k₂ (Json.Lacks k₁) id := ⟨fun _ _ => rfl, Json.rename_of_lacks⟩
  have same := compileWith_rename (δ := δ) o notOption₁ notOption₂ unused root renamed typed
  refine ⟨same, fun lacks => ⟨?_, fun t => ?_⟩, fun s s' run run' => ?_⟩
  · exact compileWith_rename o notOption₁ notOption₂ unused root untouched lacks
  · rw [FieldType.rekey_eq, Settings.mapExtra_id]
  · rw [run, run'] at same
    obtain rfl := Except.ok.inj same
    rw [rekey_options, rekey_groups, rekey_virtuals, indexes_rekey, rekey_fields,
      Table.keys_mapValues]
    exact ⟨rfl, rfl, rfl, rfl, rfl⟩

end

/-- An article whose author is a group, with a record within a record. Its notes are documents. -/
def article : List (String × Json) := [
  ("title", .obj [("type", .str "String"), ("required", .bool true), ("lowercase", .bool true)]),
  ("author", .obj [
    ("name", .obj [("type", .obj [("type", .str "String"), ("index", .bool true)])])]),
  ("notes", .arr [.obj [
    ("text", .obj [("type", .str "String")]),
    ("by", .obj [("type", .str "ObjectId"), ("index", .bool true)])]]),
  ("stars", .obj [("type", .str "Array"), ("cast", .obj [("type", .str "Number")])])]

theorem compile_respelled_article : ∃ s s' : Schema MemoryDocument,
    compileWith {} "type" article = .ok s ∧
      compileWith {} "$type" (Json.renameFields "type" "$type" article) = .ok s' ∧
        s' = s.rekey "type" "$type" id ∧ s'.indexes = s.indexes ∧ s.indexes.length = 2 := by
  have h : ((compileWith {} "type" article : Except SchemaError (Schema MemoryDocument)).toOption.any
      fun s => s.indexes.length = 2) = true := by
    decide +kernel
  obtain ⟨s, compiled, two⟩ := exists_ok_of_any h
  have typed (other : Json → Prop) (beside : other (.bool true)) :
      Json.TypedBy "type" other (.obj article) := by
    simp [article, Json.TypedBy, Json.FieldsTypedBy, Json.ItemsTypedBy, Json.RecordTypedBy,
      Json.Lacks, Table.contains, Table.get?, Settings.optionKeys, beside]
  have unused : Json.FieldsLack "$type" article := by
    simp [article, Json.FieldsLack, Json.ItemsLack, Json.Lacks]
  obtain ⟨-, same, equal⟩ := compile_respelled (δ := MemoryDocument) {} (by decide) (by decide)
    unused (by decide) (typed _ trivial)
  have respelled := (same (typed _ trivial)).1.trans (congrArg (Except.map _) compiled)
  obtain ⟨-, -, -, -, indexes⟩ := equal s _ compiled respelled
  exact ⟨s, _, compiled, respelled, rfl, indexes, by simpa using two⟩

end Schema

end DocSchema
