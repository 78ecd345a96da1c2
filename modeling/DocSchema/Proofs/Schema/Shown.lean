import DocSchema.Proofs.Outcomes
import DocSchema.Proofs.Schema.Declaring
import DocSchema.Proofs.Schema.TypeNames

/-!
# Compiling the shown tree

The tree of a compiled schema, shown as a JSON value, compiles to the same fields and groups again.
The schema declares some object, and its tree shows that object. What is left to see is that this
object is declared like what it is read as (`ReadBack`): a definition that came from JSON is shown
as it was, and an added type is shown by its name, which makes the same field.
-/

namespace DocSchema

open Definition

variable {δ : Type} [Document δ] {o : Options} {fields : List (String × Definition δ)}
  {s s' : Schema δ}

/-! ### Reading the shown object -/

/-- What an object is read as once it was shown. -/
def Definition.reread (fields : List (String × Definition δ)) : List (String × Definition δ) :=
  ofFields (fieldsJson fields)

/-- Whether an object is declared like what it is read as once it was shown. -/
structure ReadBack (o : Options) (fields : List (String × Definition δ)) : Prop where
  plain : PlainKeys o.typeKey (reread fields)
  accepted : ∀ n ∈ nodes o.typeKey [] (reread fields), n.error? o = none
  types : leafTypes o (nodes o.typeKey [] (reread fields)) = leafTypes o (nodes o.typeKey [] fields)
  groups : groupNames (nodes o.typeKey [] (reread fields)) = groupNames (nodes o.typeKey [] fields)

/-- Whether a definition makes the same field after it was shown. -/
structure Definition.IsReadBack (o : Options) (d : Definition δ) : Prop where
  field : IsField o.typeKey d
  shown : IsField o.typeKey (ofJson d.toJson : Definition δ)
  same : ∀ path, (ofJson d.toJson : Definition δ).typeAt o path = d.typeAt o path

theorem isReadBack_date : IsReadBack o (.type (.scalar .date) : Definition δ) where
  field := ⟨rfl, fun _ => rfl⟩
  shown := ⟨rfl, fun _ => rfl⟩
  same path := typeAt_name o path .date

theorem isReadBack_idDefinition :
    IsReadBack o (Schema.idDefinition o.typeKey : Definition δ) := by
  refine ⟨isField_idDefinition o.typeKey, ?_, typeAt_idDefinition o⟩
  by_cases hk : o.typeKey = "auto"
  · simpa [Schema.idDefinition, Table.insert, hk, toJson, fieldsJson, ofJson, ofFields] using
      isField_record [] rfl
  · simpa [Schema.idDefinition, Table.insert, hk, toJson, fieldsJson, ofJson, ofFields] using
      isField_record _ rfl

namespace ReadBack

/-- An object that came from JSON is shown as it was. -/
theorem of_json {fs : List (String × Json)} (h : Declares o (ofFields fs) s) :
    ReadBack o (ofFields fs : List (String × Definition δ)) := by
  have same : reread (ofFields fs : List (String × Definition δ)) = ofFields fs := by
    rw [reread, fieldsJson_ofFields]
  refine ⟨?_, ?_, by rw [same], by rw [same]⟩
  · rw [same]
    exact h.plain
  · rw [same]
    exact h.accepted

/-- One more field that makes the same field after it was shown does no harm. -/
theorem put {key : String} {d : Definition δ} {t : FieldType δ} (h : ReadBack o fields)
    (declares : Declares o fields s) (dots : '.' ∉ key.toList) (back : IsReadBack o d)
    (allowed : Path.isReserved key = false) (typed : d.typeAt o key = .ok t)
    (noGroup : key ∉ groupNames (nodes o.typeKey [] fields)) :
    ReadBack o (Table.insert fields key d) := by
  have shown : reread (Table.insert fields key d) =
      Table.insert (reread fields) key (ofJson d.toJson) := by
    rw [reread, fieldsJson_insert, ofFields_insert, reread]
  have noGroup' : key ∉ groupNames (nodes o.typeKey [] (reread fields)) := h.groups ▸ noGroup
  refine ⟨?_, fun n hn => ?_, ?_, ?_⟩
  · rw [shown]
    exact plainKeys_insert dots back.shown.not_inline h.plain
  · rw [shown] at hn
    rcases mem_nodes_insert back.shown.not_inline hn with rfl | hn
    · exact back.shown.accepted allowed ((back.same key).trans typed)
    · exact h.accepted n hn
  · rw [shown, leafTypes_insert dots back.shown.not_inline h.plain noGroup', back.same, h.types,
      leafTypes_insert dots back.field.not_inline declares.plain noGroup]
  · rw [shown, groupNames_insert back.shown.not_inline noGroup', h.groups,
      groupNames_insert back.field.not_inline noGroup]

end ReadBack

/-- A schema that declares an object which is read back once it was shown. -/
structure Restorable (o : Options) (fields : List (String × Definition δ)) (s : Schema δ) :
    Prop where
  declares : Declares o fields s
  back : ReadBack o fields

namespace Restorable

/-- A field that is added keeps a schema restorable. -/
theorem put {key : String} {d : Definition δ} (h : Restorable o fields s)
    (dots : '.' ∉ key.toList) (back : IsReadBack o d)
    (run : s.register (.field key d (d.typeAt o key)) = (s', .ok ())) :
    Restorable o (Table.insert fields key d) s' := by
  obtain ⟨declares, allowed, ⟨t, typed⟩, noGroup⟩ := h.declares.put dots back.field run
  exact ⟨declares, h.back.put h.declares dots back allowed typed noGroup⟩

end Restorable

/-! ### Identifiers -/

/-- Adding the identifier field keeps a schema restorable. -/
theorem Restorable.addIdField (h : Restorable o fields s) (run : s.addIdField = (s', .ok ())) :
    ∃ fields', Restorable o fields' s' := by
  rw [Schema.addIdField_eq, h.declares.done.options] at run
  split at run
  · exact ⟨_, h.put (by decide) isReadBack_idDefinition run⟩
  · cases run
    exact ⟨fields, h⟩

/-! ### Times -/

/-- A path at which a schema declares a date, so that a date can be declared there again. -/
structure Stamped (fields : List (String × Definition δ)) (s : Schema δ) (path : String) :
    Prop where
  declared : Table.get? fields path = some (.type (.scalar .date))
  known : Table.contains s.fields path = true
  allowed : Path.isReserved path = false
  free : path ∉ s.groups

theorem Restorable.stamps : ∀ (paths : List String) {fields : List (String × Definition δ)}
    {s : Schema δ}, Restorable o fields s → (∀ p ∈ paths, '.' ∉ p.toList) →
      s.registerAll (paths.map (Schema.dateEntry o.typeKey)) = (s', .ok ()) →
        ∃ fields', Restorable o fields' s' ∧ Grown s s' ∧
          ∀ p, p ∈ paths ∨ Stamped fields s p → Stamped fields' s' p
  | [], fields, s, h, _, run => by
    cases run
    exact ⟨fields, h, ⟨rfl, rfl, fun _ => id⟩, fun p hp => hp.elim (by simp) id⟩
  | path :: paths, fields, s, h, dots, run => by
    rw [List.map_cons, Schema.registerAll, Schema.dateEntry_eq] at run
    split at run
    · next s₁ _ first =>
      have plain := dots path List.mem_cons_self
      have restorable := h.put plain isReadBack_date first
      obtain ⟨-, allowed, -, noGroup⟩ := h.declares.put plain isReadBack_date.field first
      obtain ⟨grown, known⟩ := grown_register first
      have here : Stamped (Table.insert fields path (.type (.scalar .date))) s₁ path :=
        ⟨Table.get?_insert_self _ _ _, known, allowed, by
          rw [grown.groups, h.declares.done.groups]
          exact noGroup⟩
      obtain ⟨fields', restorable', grown', stamped⟩ :=
        stamps paths restorable (fun p hp => dots p (List.mem_cons_of_mem _ hp)) run
      refine ⟨fields', restorable', grown.trans grown', fun p hp => stamped p ?_⟩
      by_cases hpath : p = path
      · exact .inr (hpath ▸ here)
      · refine hp.imp (fun hm => ?_) fun old => ⟨?_, ?_, old.allowed, ?_⟩
        · exact (List.mem_cons.1 hm).resolve_left hpath
        · rw [Table.get?_insert_of_ne _ _ hpath]
          exact old.declared
        · exact grown.fields p old.known
        · rw [grown.groups]
          exact old.free
    · cases run

/-- A date that was read back is declared as a date again, and nothing changes. -/
theorem Declares.stamp_again {path : String} (h : Declares o (reread fields) s)
    (dots : '.' ∉ path.toList) (declared : Table.get? fields path = some (.type (.scalar .date)))
    (allowed : Path.isReserved path = false) (free : path ∉ s.groups) :
    ∃ s', s.register (Schema.dateEntry o.typeKey path) = (s', .ok ()) ∧ s'.fields = s.fields ∧
      s'.groups = s.groups ∧ s'.treeJson = s.treeJson := by
  let date : Definition δ := .type (.scalar .date)
  have here : Table.get? (reread fields) path = some (ofJson date.toJson) := by
    rw [reread, get?_ofFields, get?_fieldsJson, declared]
    rfl
  obtain ⟨t, typed⟩ := typeAt_date (δ := δ) o path
  have noGroup : path ∉ groupNames (nodes o.typeKey [] (reread fields)) := h.done.groups ▸ free
  -- the path is bound to a field, which another one can replace
  have taken : s.isTaken path = false := by
    have node : Tree.get? [path] s.tree = some (.field (ofJson date.toJson)) := by
      rw [h.tree, Tree.get?_singleton, get?_toTree, here, Option.map_some,
        toNode_of_not_inline isReadBack_date.shown.not_inline]
    rw [Schema.isTaken, h.done.virtuals, Path.segments_of_not_mem dots, node]
    simpa [Table.contains] using free
  have placed : ∃ bound, s.place path date = .ok bound := by
    rw [Schema.place, allowed, taken, Path.segments_of_not_mem dots]
    exact ⟨_, rfl⟩
  obtain ⟨bound, placed⟩ := placed
  have run : s.register (.field path date (date.typeAt o path)) = (bound.adopt path t, .ok ()) :=
    Schema.register_field_ok.2 ⟨bound, t, placed, typed, rfl⟩
  obtain ⟨again, -⟩ := h.put dots isReadBack_date.field run
  have same : Table.insert (reread fields) path (ofJson date.toJson) = reread fields :=
    Table.insert_of_get? here
  refine ⟨_, by rw [Schema.dateEntry_eq, run], again.fields_eq h ?_, (grown_register run).1.groups, ?_⟩
  · rw [leafTypes_insert dots isReadBack_date.field.not_inline h.plain noGroup,
      ← isReadBack_date.same, ← leafTypes_insert dots isReadBack_date.shown.not_inline h.plain
        noGroup, same]
  · rw [again.treeJson, h.treeJson, fieldsJson_insert, Table.insert_of_get?]
    rw [get?_fieldsJson, here, Option.map_some, toJson_ofJson]

/-! ### The whole schema -/

/-- Adding the times keeps a schema restorable, and the times are declared then. -/
theorem Restorable.addStampFields (h : Restorable o fields s)
    (dots : ∀ created updated, o.timestamps.fields? = some (created, updated) →
      '.' ∉ created.toList ∧ '.' ∉ updated.toList)
    (run : s.addStampFields = (s', .ok ())) :
    ∃ fields', Restorable o fields' s' ∧ Grown s s' ∧
      ∀ created updated, o.timestamps.fields? = some (created, updated) →
        Stamped fields' s' updated ∧ Table.contains s'.fields created = true := by
  rw [Schema.addStampFields, h.declares.done.options] at run
  cases times : o.timestamps.fields? with
  | none =>
    rw [times] at run
    cases run
    exact ⟨fields, h, ⟨rfl, rfl, fun _ => id⟩, fun _ _ hs => by cases hs⟩
  | some names =>
    obtain ⟨created, updated⟩ := names
    rw [times] at run
    obtain ⟨plainCreated, plainUpdated⟩ := dots created updated times
    obtain ⟨fields', restorable, grown, stamped⟩ := h.stamps _ (fun p hp => by
      rcases Schema.mem_stampPaths hp with rfl | rfl
      · exact plainCreated
      · exact plainUpdated) run
    refine ⟨fields', restorable, grown, fun c u hs => ?_⟩
    cases hs
    unfold Schema.stampPaths at stamped
    split at stamped
    · next known => exact ⟨stamped updated (.inl List.mem_cons_self), grown.fields created known⟩
    · exact ⟨stamped updated (.inl (Schema.mem_addName.2 (.inr List.mem_cons_self))),
        (stamped created (.inl (Schema.mem_addName.2 (.inl rfl)))).known⟩

/-- Times that were read back are added again, and nothing changes. -/
theorem Declares.addStampFields_again (h : Declares o (reread fields) s)
    (dots : ∀ created updated, o.timestamps.fields? = some (created, updated) →
      '.' ∉ created.toList ∧ '.' ∉ updated.toList)
    (stamped : ∀ created updated, o.timestamps.fields? = some (created, updated) →
      Stamped fields s updated ∧ Table.contains s.fields created = true) :
    ∃ s', s.addStampFields = (s', .ok ()) ∧ s'.fields = s.fields ∧ s'.groups = s.groups ∧
      s'.treeJson = s.treeJson := by
  rw [Schema.addStampFields, h.done.options]
  cases times : o.timestamps.fields? with
  | none => exact ⟨s, rfl, rfl, rfl, rfl⟩
  | some names =>
    obtain ⟨created, updated⟩ := names
    obtain ⟨declared, known⟩ := stamped created updated times
    obtain ⟨s', run, same⟩ := h.stamp_again (dots created updated times).2 declared.declared
      declared.allowed declared.free
    refine ⟨s', ?_, same⟩
    simp only [Schema.stampPaths, known, if_true, List.map_cons, List.map_nil, Schema.registerAll,
      run]

/-- A schema that lacks neither the identifier nor the times compiles again from what it is shown
as. -/
theorem Restorable.compile_shown (h : Restorable o fields s) (virtual : o.idVirtual = false)
    (dots : ∀ created updated, o.timestamps.fields? = some (created, updated) →
      '.' ∉ created.toList ∧ '.' ∉ updated.toList)
    (identified : s.lacksId = false)
    (times : ∀ created updated, o.timestamps.fields? = some (created, updated) →
      Stamped fields s updated ∧ Table.contains s.fields created = true) :
    ∃ s', Schema.compile o (ofJson s.treeJson) = .ok s' ∧ s'.fields = s.fields ∧
      s'.groups = s.groups ∧ s'.treeJson = s.treeJson := by
  -- the entries declare the same schema, so nothing is added to it
  obtain ⟨s₁, declared, h₁⟩ := Declares.of_accepted h.back.plain h.back.accepted
  have sameFields : s₁.fields = s.fields := h₁.fields_eq h.declares h.back.types
  have sameGroups : s₁.groups = s.groups := by
    rw [h₁.done.groups, h.back.groups, h.declares.done.groups]
  have sameOptions : s₁.options = s.options := by
    rw [h₁.done.options, h.declares.done.options]
  have sameTree : s₁.treeJson = s.treeJson := by
    rw [h₁.treeJson, reread, fieldsJson_ofFields, h.declares.treeJson]
  have identified₁ : s₁.addIdField = (s₁, .ok ()) := by
    have again : Grown s s₁ := ⟨sameOptions, sameGroups, fun _ hk => by rwa [sameFields]⟩
    rw [Schema.addIdField_eq, again.lacksId identified]
    rfl
  have shown₁ : s₁.addIdVirtual = (s₁, .ok ()) :=
    Schema.addIdVirtual_of_off (by rw [h₁.done.options, virtual])
  have builtIn : Schema.SameNames s₁ s₁.addBuiltIn := ⟨rfl, rfl, rfl, rfl, rfl, rfl⟩
  obtain ⟨s₂, stamped, fields₂, groups₂, tree₂⟩ := Declares.addStampFields_again
    (h₁.of_same builtIn rfl) dots fun c u hs => by
      obtain ⟨here, known⟩ := times c u hs
      refine ⟨⟨here.declared, ?_, here.allowed, ?_⟩, ?_⟩
      · exact sameFields ▸ here.known
      · exact sameGroups ▸ here.free
      · exact sameFields ▸ known
  have hook := Schema.sameNames_addStampHook s₂
  refine ⟨s₂.addStampHook, ?_, ?_, ?_, ?_⟩
  · rw [h.declares.treeJson, ofJson, Schema.compile_object]
    exact Schema.assemble_ok.2 ⟨s₁, s₁, s₁, s₂, declared, identified₁, shown₁, stamped, rfl⟩
  · rw [hook.fields, fields₂]
    exact sameFields
  · rw [hook.groups, groups₂]
    exact sameGroups
  · rw [Schema.treeJson, hook.tree]
    exact tree₂.trans sameTree

namespace Schema

/-- The shown tree of a schema that was compiled from JSON compiles to the same fields, groups and
tree again. -/
theorem compile_treeJson {fs : List (String × Json)} (virtual : o.idVirtual = false)
    (dots : ∀ created updated, o.timestamps.fields? = some (created, updated) →
      '.' ∉ created.toList ∧ '.' ∉ updated.toList)
    (plain : PlainKeys o.typeKey (ofFields fs : List (String × Definition δ)))
    (compiled : compile o (ofJson (.obj fs)) = .ok s) :
    ∃ s', compile o (ofJson s.treeJson) = .ok s' ∧ s'.fields = s.fields ∧ s'.groups = s.groups ∧
      s'.treeJson = s.treeJson := by
  rw [ofJson, compile_object] at compiled
  obtain ⟨s₁, s₂, s₃, s₄, declared, identified, shown, stamped, rfl⟩ := assemble_ok.1 compiled
  -- the schema declares some object that can be read back, the additions included
  have h₁ := Declares.of_registerAll plain declared
  obtain ⟨fields₂, r₂⟩ := Restorable.addIdField ⟨h₁, .of_json h₁⟩ identified
  rw [addIdVirtual_of_off (by rw [r₂.declares.done.options, virtual])] at shown
  cases shown
  have builtIn : SameNames s₂ s₂.addBuiltIn := ⟨rfl, rfl, rfl, rfl, rfl, rfl⟩
  obtain ⟨fields₄, r₄, grown, times⟩ := Restorable.addStampFields
    ⟨r₂.declares.of_same builtIn rfl, r₂.back⟩ dots stamped
  have had : s₂.lacksId = false := lacksId_addIdField identified
  obtain ⟨s', run, fields, groups, tree⟩ :=
    r₄.compile_shown virtual dots (grown.lacksId had) times
  have hook := sameNames_addStampHook s₄
  have sameTree : s₄.addStampHook.treeJson = s₄.treeJson := by
    rw [Schema.treeJson, Schema.treeJson, hook.tree]
  rw [sameTree, hook.fields, hook.groups]
  exact ⟨s', run, fields, groups, tree⟩

/-- Options under which times are kept and no identifier is shown as a text. -/
def datedOptions : Options :=
  { idVirtual := false, timestamps := .enabled "createdAt" "updatedAt" }

/-- A group with an unset type key, an array of values, a group inside an array and a text in the
place of a time. -/
def visitFields : List (String × Json) :=
  [("place", .obj [("city", .str "String"), ("type", .bool false)]), ("tags", .arr [.str "string"]),
    ("guests", .arr [.obj [("name", .obj [("type", .str "String"), ("required", .bool true)])]]),
    ("updatedAt", .str "String")]

theorem compile_treeJson_visit : ∃ s : Schema MemoryDocument,
    compile datedOptions (ofJson (.obj visitFields)) = .ok s ∧
      ∃ s', compile datedOptions (ofJson s.treeJson) = .ok s' ∧ s'.fields = s.fields ∧
        s'.groups = s.groups ∧ s'.treeJson = s.treeJson := by
  obtain ⟨s, compiled, -⟩ := exists_ok_of_any (p := fun _ => true)
    (x := compile (δ := MemoryDocument) datedOptions (ofJson (.obj visitFields))) (by decide +kernel)
  have plain : PlainKeys (δ := MemoryDocument) datedOptions.typeKey (ofFields visitFields) := by
    simp [PlainKeys, PlainAt, ofFields, ofJson, ofItems, visitFields]
  refine ⟨s, compiled, compile_treeJson rfl (fun created updated h => ?_) plain compiled⟩
  cases h
  decide

end Schema

end DocSchema
