import DocSchema.Proofs.Schema.Adding

/-!
# Schemas that declare an object

A schema that is compiled from an object declares the nodes of that object. A field that is added
later, the identifier or a time, is one more key of the object or takes the place of one, as long as
its name has no dots (`Declares.put`). So the schema goes on declaring some object, and its tree
shows that object (`Declares.treeJson`).
-/

namespace DocSchema

open Definition

variable {δ : Type}

/-! ### Objects with one more key -/

namespace Definition

variable {typeKey key : String} {d : Definition δ}

theorem isGroup_of_not_inline {f : String × Definition δ} {fs : List (String × Definition δ)}
    (h : isInline typeKey (object (f :: fs)) = false) : isGroup (f :: fs) typeKey = false := by
  simpa [isInline] using h

theorem nodesAt_of_not_inline (h : isInline typeKey d = false) (names : List String) :
    nodesAt typeKey names d = [.leaf names d] := by
  unfold nodesAt
  split
  · rw [isGroup_of_not_inline h]
    rfl
  · rfl

theorem toNode_of_not_inline (h : isInline typeKey d = false) :
    toNode typeKey d = .field d := by
  unfold toNode
  split
  · rw [isGroup_of_not_inline h]
    rfl
  · rfl

theorem plainAt_of_not_inline (h : isInline typeKey d = false) : PlainAt typeKey d := by
  unfold PlainAt
  split
  · intro hg
    rw [isGroup_of_not_inline h] at hg
    cases hg
  · trivial

/-- What stands under a key that names no group is a field by itself. -/
theorem not_inline_of_not_group {x : Definition δ} :
    ∀ {fields : List (String × Definition δ)}, key ∉ groupNames (nodes typeKey [] fields) →
      Table.get? fields key = some x → isInline typeKey x = false
  | (k, y) :: rest, h, hx => by
    rw [nodes, groupNames_append, List.mem_append, not_or] at h
    by_cases hk : k = key
    · subst hk
      obtain rfl : y = x := by simpa [Table.get?] using hx
      rw [← Bool.not_eq_true]
      intro inline
      refine h.1 ?_
      cases y with
      | object fields =>
        cases fields with
        | nil => cases inline
        | cons f fs =>
          have group : isGroup (f :: fs) typeKey = true := by simpa [isInline] using inline
          rw [nodesAt, if_pos group]
          simp [groupNames]
      | _ => cases inline
    · exact not_inline_of_not_group h.2 (by simpa [Table.get?, hk] using hx)

theorem toTree_insert (fields : List (String × Definition δ)) :
    toTree typeKey (Table.insert fields key d) =
      Table.insert (toTree typeKey fields) key (toNode typeKey d) := by
  induction fields with
  | nil => rfl
  | cons f fields ih =>
    obtain ⟨k, x⟩ := f
    by_cases hk : k = key <;> simp [toTree, Table.insert, hk, ih]

theorem get?_toTree (fields : List (String × Definition δ)) :
    Table.get? (toTree typeKey fields) key = (Table.get? fields key).map (toNode typeKey) := by
  induction fields with
  | nil => rfl
  | cons f fields ih =>
    obtain ⟨k, x⟩ := f
    by_cases hk : k = key <;> simp [toTree, Table.get?, hk, ih]

theorem fieldsJson_insert (fields : List (String × Definition δ)) :
    fieldsJson (Table.insert fields key d) = Table.insert (fieldsJson fields) key d.toJson := by
  induction fields with
  | nil => rfl
  | cons f fields ih =>
    obtain ⟨k, x⟩ := f
    by_cases hk : k = key <;> simp [fieldsJson, Table.insert, hk, ih]

theorem get?_fieldsJson (fields : List (String × Definition δ)) :
    Table.get? (fieldsJson fields) key = (Table.get? fields key).map toJson := by
  induction fields with
  | nil => rfl
  | cons f fields ih =>
    obtain ⟨k, x⟩ := f
    by_cases hk : k = key <;> simp [fieldsJson, Table.get?, hk, ih]

theorem ofFields_insert (fields : List (String × Json)) (v : Json) :
    (ofFields (Table.insert fields key v) : List (String × Definition δ)) =
      Table.insert (ofFields fields) key (ofJson v) := by
  induction fields with
  | nil => rfl
  | cons f fields ih =>
    obtain ⟨k, x⟩ := f
    by_cases hk : k = key <;> simp [ofFields, Table.insert, hk, ih]

theorem get?_ofFields (fields : List (String × Json)) :
    Table.get? (ofFields fields : List (String × Definition δ)) key =
      (Table.get? fields key).map ofJson := by
  induction fields with
  | nil => rfl
  | cons f fields ih =>
    obtain ⟨k, x⟩ := f
    by_cases hk : k = key <;> simp [ofFields, Table.get?, hk, ih]

variable (dots : '.' ∉ key.toList) (leaf : isInline typeKey d = false)

include dots leaf in
/-- An object stays plain with a field more whose key has no dots. -/
theorem plainKeys_insert : ∀ {fields : List (String × Definition δ)}, PlainKeys typeKey fields →
    PlainKeys typeKey (Table.insert fields key d)
  | [], _ => ⟨dots, by simp, plainAt_of_not_inline leaf, trivial⟩
  | (k, x) :: rest, ⟨plain, fresh, here, others⟩ => by
    by_cases hk : k = key
    · subst hk
      rw [Table.insert, if_pos rfl]
      exact ⟨plain, fresh, plainAt_of_not_inline leaf, others⟩
    · rw [Table.insert, if_neg hk]
      refine ⟨plain, fun hm => ?_, here, plainKeys_insert others⟩
      rcases Table.mem_keys_insert.1 hm with h | h
      · exact hk h
      · exact fresh h

include leaf in
theorem mem_nodes_insert {n : Node δ} : ∀ {fields : List (String × Definition δ)},
    n ∈ nodes typeKey [] (Table.insert fields key d) →
      n = .leaf [key] d ∨ n ∈ nodes typeKey [] fields
  | [], h => by
    rw [Table.insert, nodes, nodes, List.append_nil, nodesAt_of_not_inline leaf] at h
    exact .inl (List.mem_singleton.1 h)
  | (k, x) :: rest, h => by
    rw [nodes, List.mem_append]
    by_cases hk : k = key
    · subst hk
      rw [Table.insert, if_pos rfl, nodes, nodesAt_of_not_inline leaf, List.mem_append] at h
      exact h.imp List.mem_singleton.1 .inr
    · rw [Table.insert, if_neg hk, nodes, List.mem_append] at h
      rcases h with h | h
      · exact .inr (.inl h)
      · exact (mem_nodes_insert h).imp_right .inr

include leaf in
/-- A field that takes a free place, or the place of a field, does not change the groups. -/
theorem groupNames_insert : ∀ {fields : List (String × Definition δ)},
    key ∉ groupNames (nodes typeKey [] fields) →
      groupNames (nodes typeKey [] (Table.insert fields key d)) =
        groupNames (nodes typeKey [] fields)
  | [], _ => by
    rw [Table.insert, nodes, nodes, nodesAt_of_not_inline leaf]
    rfl
  | (k, x) :: rest, free => by
    by_cases hk : k = key
    · subst hk
      have old : isInline typeKey x = false := not_inline_of_not_group free (by simp [Table.get?])
      rw [Table.insert, if_pos rfl, nodes, nodes, nodesAt_of_not_inline leaf,
        nodesAt_of_not_inline old]
      rfl
    · rw [nodes, groupNames_append, List.mem_append, not_or] at free
      rw [Table.insert, if_neg hk, nodes, nodes, groupNames_append, groupNames_append,
        groupNames_insert free.2]

/-- A leaf below another key has another name. -/
theorem not_mem_leafTypes [Document δ] {o : Options} {k : String} {x : Definition δ}
    (dots : '.' ∉ key.toList) (plain : '.' ∉ k.toList) (here : PlainAt o.typeKey x) (hk : k ≠ key) :
    key ∉ Table.keys (leafTypes o (nodesAt o.typeKey [k] x)) := by
  intro hm
  obtain ⟨t, ht⟩ := Table.mem_keys.1 hm
  obtain ⟨leaf, hl, he⟩ := List.mem_map.1 ht
  have hn := mem_leaves.1 hl
  have below : [k] <+: leaf.1 := prefix_of_mem_nodesAt o.typeKey [k] x _ hn
  have plainNode := plain_nodesAt o.typeKey (List.cons_ne_nil k []) (by simpa using plain) x here _ hn
  have names : leaf.1 = [key] :=
    calc leaf.1 = Path.segments (Path.join leaf.1) := plainNode.segments_path.symm
      _ = Path.segments key := by rw [(Prod.mk.inj he).1]
      _ = [key] := Path.segments_of_not_mem dots
  rw [names] at below
  exact hk (by simpa using below)

/-- A field that takes a free place, or the place of a field, does so among the leaves. -/
theorem leafTypes_insert [Document δ] {o : Options} (dots : '.' ∉ key.toList)
    (leaf : isInline o.typeKey d = false) : ∀ {fields : List (String × Definition δ)},
      PlainKeys o.typeKey fields → key ∉ groupNames (nodes o.typeKey [] fields) →
        leafTypes o (nodes o.typeKey [] (Table.insert fields key d)) =
          Table.insert (leafTypes o (nodes o.typeKey [] fields)) key (d.typeAt o key)
  | [], _, _ => by
    rw [Table.insert, nodes, nodes, nodesAt_of_not_inline leaf]
    simp [leafTypes, leaves, Table.insert, nodes]
  | (k, x) :: rest, ⟨plain, _, here, others⟩, free => by
    by_cases hk : k = key
    · subst hk
      have old : isInline o.typeKey x = false :=
        not_inline_of_not_group free (by simp [Table.get?])
      rw [Table.insert, if_pos rfl, nodes, nodes, nodesAt_of_not_inline leaf,
        nodesAt_of_not_inline old]
      simp [leafTypes, leaves, Table.insert]
    · have split (fields : List (String × Definition δ)) :
          leafTypes o (nodes o.typeKey [] ((k, x) :: fields)) =
            leafTypes o (nodesAt o.typeKey [k] x) ++ leafTypes o (nodes o.typeKey [] fields) := by
        rw [nodes, leafTypes, leaves_append, List.map_append]
        rfl
      rw [nodes, groupNames_append, List.mem_append, not_or] at free
      rw [Table.insert, if_neg hk, split, split, leafTypes_insert dots leaf others free.2,
        Table.insert_append (not_mem_leafTypes dots plain here hk)]

end Definition

/-! ### Definitions of one field -/

/-- Whether a definition declares a field by itself. -/
structure Definition.IsField (typeKey : String) (d : Definition δ) : Prop where
  not_inline : isInline typeKey d = false
  given : ∀ names, (Node.leaf names d).entry = .field (Path.join names) d ()

theorem isField_record {key : String} {x : Definition δ} (rest : List (String × Definition δ))
    (hx : x.isUnset = false) : IsField key (object ((key, x) :: rest)) := by
  have stated : statedType? ((key, x) :: rest) key = some x :=
    statedType?_of_get? (by simp [Table.get?]) hx
  exact ⟨by simp [isInline, isGroup, stated], fun _ => rfl⟩

theorem isField_idDefinition (typeKey : String) :
    IsField typeKey (Schema.idDefinition typeKey : Definition δ) := by
  by_cases hk : typeKey = "auto"
  · simpa [Schema.idDefinition, Table.insert, hk] using isField_record [] rfl
  · simpa [Schema.idDefinition, Table.insert, hk] using isField_record _ rfl

/-! ### Schemas with more fields -/

variable {o : Options} {s s' : Schema δ}

/-- A schema that got more fields, but no groups. -/
structure Grown (s s' : Schema δ) : Prop where
  options : s'.options = s.options
  groups : s'.groups = s.groups
  fields : ∀ key, Table.contains s.fields key = true → Table.contains s'.fields key = true

theorem Grown.trans {s₁ s₂ s₃ : Schema δ} (h : Grown s₁ s₂) (h' : Grown s₂ s₃) : Grown s₁ s₃ :=
  ⟨h'.options.trans h.options, h'.groups.trans h.groups, fun key hk => h'.fields key (h.fields key hk)⟩

theorem Grown.of_same (same : Schema.SameNames s s') (options : s'.options = s.options) :
    Grown s s' :=
  ⟨options, same.groups, fun key hk => by rwa [same.fields]⟩

theorem grown_register {path : String} {d : Definition δ}
    {type : Except SchemaError (FieldType δ)}
    (run : s.register (.field path d type) = (s', .ok ())) :
    Grown s s' ∧ Table.contains s'.fields path = true := by
  obtain ⟨bound, t, placed, -, rfl⟩ := Schema.register_field_ok.1 run
  obtain ⟨-, -, tree, -, rfl⟩ := Schema.place_ok placed
  refine ⟨⟨?_, ?_, fun key hk => ?_⟩, ?_⟩
  · rw [Schema.options_adopt]
  · rw [Schema.adopt_groups]
  · rw [Schema.adopt_fields, Table.contains_insert]
    simpa using .inr hk
  · rw [Schema.adopt_fields, Table.contains_insert]
    simp

/-- Whether an identifier field is added to a schema. -/
def Schema.lacksId (s : Schema δ) : Bool :=
  s.options.idField && !Table.contains s.fields "_id" && !s.groups.contains "_id"

theorem Grown.lacksId (h : Grown s s') (had : s.lacksId = false) : s'.lacksId = false := by
  have fields := h.fields "_id"
  simp only [Schema.lacksId, h.options, h.groups, Bool.and_eq_false_iff,
    Bool.not_eq_false'] at had ⊢
  exact had.imp_left fun had => had.imp_right fields

namespace Schema

theorem addIdVirtual_of_off (off : s.options.idVirtual = false) :
    s.addIdVirtual = (s, .ok ()) := by
  rw [addIdVirtual, off]
  rfl

theorem mem_stampPaths {created updated path : String}
    (h : path ∈ s.stampPaths created updated) : path = created ∨ path = updated := by
  unfold stampPaths at h
  split at h
  · exact .inr (List.mem_singleton.1 h)
  · exact (mem_addName.1 h).imp_right List.mem_singleton.1

end Schema

/-! ### What is added after the entries -/

variable [Document δ]

namespace Schema

theorem addIdField_eq : s.addIdField =
    if s.lacksId then
      s.register (.field "_id" (idDefinition s.options.typeKey)
        ((idDefinition s.options.typeKey).typeAt s.options "_id"))
    else (s, .ok ()) := by
  rw [← plainTypeAt_idDefinition]
  rfl

theorem lacksId_addIdField (run : s.addIdField = (s', .ok ())) : s'.lacksId = false := by
  rw [addIdField_eq] at run
  split at run
  · simp [lacksId, (grown_register run).2]
  · next h =>
    cases run
    simpa using h

theorem dateEntry_eq (o : Options) (path : String) :
    dateEntry o.typeKey path = (.field path (.type (.scalar .date))
      ((Definition.type (.scalar .date) : Definition δ).typeAt o path) : TypedEntry δ) := by
  rw [← plainTypeAt_date]
  rfl

/-- What the fields of an object compile to is what its nodes declare. -/
theorem compile_object (o : Options) (fields : List (String × Definition δ)) :
    compile o (.object fields) = assemble o ((nodes o.typeKey [] fields).map (Node.typed o)) := by
  have entries := entries_eq o.typeKey [] fields
  rw [frontOf, if_pos rfl] at entries
  rw [compile, entries, List.map_map]
  rfl

end Schema

/-! ### The object that a schema declares -/

variable {fields : List (String × Definition δ)}

/-- Nodes are only declared if they are accepted by themselves. -/
theorem Done.of_registerAll : ∀ (ns pre : List (Node δ)) (s : Schema δ), Done o pre s →
    Outlined (pre ++ ns) → s.registerAll (ns.map (Node.typed o)) = (s', .ok ()) →
      (∀ n ∈ ns, n.error? o = none) ∧ Done o (pre ++ ns) s'
  | [], pre, s, h, _, run => by
    cases run
    exact ⟨by simp, by rwa [List.append_nil]⟩
  | n :: ns, pre, s, h, ready, run => by
    have one : n.error? o = none ∧
        ∃ s₁, s.register (n.typed o) = (s₁, .ok ()) ∧ Done o (pre ++ [n]) s₁ := by
      cases n with
      | group names => exact ⟨rfl, h.group ready⟩
      | leaf names d =>
        cases refused : (Node.leaf names d).error? o with
        | none => exact ⟨rfl, h.leaf ready refused⟩
        | some e =>
          obtain ⟨s₁, failed, -⟩ := h.refuse ready refused
          rw [List.map_cons, Schema.registerAll, failed] at run
          cases run
    obtain ⟨accepted, s₁, first, done⟩ := one
    rw [List.map_cons, Schema.registerAll, first] at run
    obtain ⟨others, done'⟩ := of_registerAll ns (pre ++ [n]) s₁ done (by simpa using ready) run
    refine ⟨fun m hm => ?_, by simpa using done'⟩
    rcases List.mem_cons.1 hm with rfl | hm
    · exact accepted
    · exact others m hm

theorem Definition.IsField.accepted {d : Definition δ} {key : String} {t : FieldType δ}
    (h : IsField o.typeKey d) (allowed : Path.isReserved key = false)
    (typed : d.typeAt o key = .ok t) : (Node.leaf [key] d).error? o = none := by
  have entry : (Node.leaf [key] d).typed o = .field key d (d.typeAt o key) := by
    rw [Node.typed, h.given, Path.join_singleton]
    rfl
  rcases Node.leaf_cases o [key] d with ⟨he, -⟩ | ⟨he, -⟩ | ⟨-, he⟩
  · rw [entry] at he
    cases he
  · rw [entry] at he
    cases he
  · rw [he, Path.join_singleton, allowed, typed]
    rfl

/-- A schema that declares the nodes of an object and nothing else. -/
structure Declares (o : Options) (fields : List (String × Definition δ)) (s : Schema δ) :
    Prop where
  plain : PlainKeys o.typeKey fields
  accepted : ∀ n ∈ nodes o.typeKey [] fields, n.error? o = none
  done : Done o (nodes o.typeKey [] fields) s

namespace Declares

theorem of_same (h : Declares o fields s) (same : Schema.SameNames s s')
    (options : s'.options = s.options) : Declares o fields s' where
  plain := h.plain
  accepted := h.accepted
  done := {
    options := options.trans h.done.options
    fields := same.fields ▸ h.done.fields
    groups := same.groups ▸ h.done.groups
    virtuals := same.virtuals ▸ h.done.virtuals
    planted := same.tree ▸ h.done.planted }

theorem tree (h : Declares o fields s) : s.tree = toTree o.typeKey fields := by
  have planted := plant_nodes o.typeKey fields h.plain [] fun _ _ => rfl
  rw [h.done.planted] at planted
  exact Except.ok.inj planted

theorem treeJson (h : Declares o fields s) : s.treeJson = .obj (fieldsJson fields) := by
  rw [Schema.treeJson, h.tree, treeJson_toTree]

/-- Schemas that declare leaves of the same names and types have the same fields. -/
theorem fields_eq {fields' : List (String × Definition δ)} (h : Declares o fields s)
    (h' : Declares o fields' s')
    (same : leafTypes o (nodes o.typeKey [] fields) = leafTypes o (nodes o.typeKey [] fields')) :
    s.fields = s'.fields := by
  have typed := (h.done.fields.trans same).trans h'.done.fields.symm
  refine (List.map_inj_right fun a b hab => ?_).1 typed
  obtain ⟨hk, ht⟩ := Prod.mk.inj hab
  exact Prod.ext hk (Except.ok.inj ht)

/-- The nodes of an object that are all accepted by themselves are declared. -/
theorem of_accepted (plain : PlainKeys o.typeKey fields)
    (accepted : ∀ n ∈ nodes o.typeKey [] fields, n.error? o = none) :
    ∃ s, (Schema.empty o).registerAll ((nodes o.typeKey [] fields).map (Node.typed o)) =
      (s, .ok ()) ∧ Declares o fields s := by
  have nothing : Done o [] (Schema.empty o : Schema δ) := ⟨rfl, rfl, rfl, rfl, rfl⟩
  have ready : Outlined ([] ++ nodes o.typeKey [] fields ++ []) := by
    rw [List.append_nil, List.nil_append]
    exact outlined_nodes plain
  obtain ⟨s, run, done⟩ := Done.registerAll _ [] _ [] nothing ready accepted
  exact ⟨s, run, plain, accepted, done⟩

/-- Where the nodes of an object are all declared, they are all accepted by themselves. -/
theorem of_registerAll (plain : PlainKeys o.typeKey fields)
    (run : (Schema.empty o).registerAll ((nodes o.typeKey [] fields).map (Node.typed o)) =
      (s, .ok ())) : Declares o fields s := by
  have ready : Outlined ([] ++ nodes o.typeKey [] fields) := by
    rw [List.nil_append]
    exact outlined_nodes plain
  obtain ⟨accepted, done⟩ := Done.of_registerAll _ [] _ ⟨rfl, rfl, rfl, rfl, rfl⟩ ready run
  exact ⟨plain, accepted, done⟩

/-- A field under a key without dots is declared as one more key of the object, or in the place of
the one it has. -/
theorem put {key : String} {d : Definition δ} (h : Declares o fields s)
    (dots : '.' ∉ key.toList) (field : IsField o.typeKey d)
    (run : s.register (.field key d (d.typeAt o key)) = (s', .ok ())) :
    Declares o (Table.insert fields key d) s' ∧ Path.isReserved key = false ∧
      (∃ t, d.typeAt o key = .ok t) ∧ key ∉ groupNames (nodes o.typeKey [] fields) := by
  obtain ⟨bound, t, placed, typed, rfl⟩ := Schema.register_field_ok.1 run
  obtain ⟨allowed, free, tree, inserted, rfl⟩ := Schema.place_ok placed
  have noGroup : key ∉ groupNames (nodes o.typeKey [] fields) := by
    rw [← h.done.groups]
    intro hm
    simp [Schema.isTaken, hm] at free
  have plain := plainKeys_insert dots field.not_inline h.plain
  have stored : tree = toTree o.typeKey (Table.insert fields key d) := by
    rw [toTree_insert, toNode_of_not_inline field.not_inline, ← h.tree]
    rw [Path.segments_of_not_mem dots] at inserted
    exact (Except.ok.inj inserted).symm
  refine ⟨⟨plain, fun n hn => ?_, ?_, ?_, ?_, ?_, ?_⟩, allowed, ⟨t, typed⟩, noGroup⟩
  · rcases mem_nodes_insert field.not_inline hn with rfl | hn
    · exact field.accepted allowed typed
    · exact h.accepted n hn
  · rw [Schema.options_adopt]
    exact h.done.options
  · have same := Table.mapValues_insert (Except.ok (ε := SchemaError)) s.fields key t
    rw [Schema.adopt_fields, leafTypes_insert dots field.not_inline h.plain noGroup, typed,
      ← h.done.fields]
    exact same
  · rw [Schema.adopt_groups, groupNames_insert field.not_inline noGroup]
    exact h.done.groups
  · rw [Schema.adopt_virtuals]
    exact h.done.virtuals
  · rw [Schema.adopt_tree, plant_nodes o.typeKey _ plain [] fun _ _ => rfl, List.nil_append,
      ← stored]

end Declares

end DocSchema
