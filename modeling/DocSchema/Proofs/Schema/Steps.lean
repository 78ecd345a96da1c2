import Mathlib.Logic.Relation
import DocSchema.Proofs.Schema.SubSchemas

/-!
# Calls as single steps

`Step` lists everything that one call, or one part of a call, can do to a schema. Whatever a call
does is a sequence of such steps (`steps_run`), also where it fails half way, and a compiled schema
is reached by steps from an empty one (`steps_compile`). So a property that every step keeps holds
after any calls, and only the steps have to be looked at to see that it does.

A step that declares a field says where its type comes from, and that the schemas inside this type
have a property `R`. Take `R` to be always true where sub-schemas do not matter.
-/

namespace DocSchema

variable {δ : Type}

namespace Schema

/-! ### Names of a schema -/

/-- The names of two schemas are the same. -/
structure SameNames (s s' : Schema δ) : Prop where
  fields : s'.fields = s.fields
  groups : s'.groups = s.groups
  embeddedFields : s'.embeddedFields = s.embeddedFields
  embeddedGroups : s'.embeddedGroups = s.embeddedGroups
  virtuals : s'.virtuals = s.virtuals
  tree : s'.tree = s.tree

theorem SameNames.refl (s : Schema δ) : SameNames s s := ⟨rfl, rfl, rfl, rfl, rfl, rfl⟩

theorem sameNames_remember (s : Schema δ) (path : String) : SameNames s (s.remember path).1 := by
  unfold remember
  split <;> exact ⟨rfl, rfl, rfl, rfl, rfl, rfl⟩

theorem sameNames_addHook (s : Schema δ) (entry : HookEntry δ) : SameNames s (s.addHook entry) := by
  unfold addHook
  split <;> exact ⟨rfl, rfl, rfl, rfl, rfl, rfl⟩

@[simp] theorem adopt_fields (s : Schema δ) (path : String) (t : FieldType δ) :
    (s.adopt path t).fields = Table.insert s.fields path t := by
  unfold adopt
  split <;> rfl

@[simp] theorem adopt_groups (s : Schema δ) (path : String) (t : FieldType δ) :
    (s.adopt path t).groups = s.groups := by
  unfold adopt
  split <;> rfl

@[simp] theorem adopt_virtuals (s : Schema δ) (path : String) (t : FieldType δ) :
    (s.adopt path t).virtuals = s.virtuals := by
  unfold adopt
  split <;> rfl

@[simp] theorem adopt_tree (s : Schema δ) (path : String) (t : FieldType δ) :
    (s.adopt path t).tree = s.tree := by
  unfold adopt
  split <;> rfl

theorem mem_addName {names : List String} {name other : String} :
    other ∈ addName names name ↔ other = name ∨ other ∈ names := by
  unfold addName
  split
  · next h =>
    rw [List.contains_iff_mem] at h
    exact ⟨.inr, fun h' => h'.elim (fun e => e ▸ h) id⟩
  · rw [List.mem_append, List.mem_singleton, or_comm]

theorem mem_foldl_addName {new names : List String} {name : String} :
    name ∈ new.foldl addName names ↔ name ∈ names ∨ name ∈ new := by
  induction new generalizing names with
  | nil => simp
  | cons other new ih =>
    rw [List.foldl_cons, ih, mem_addName, List.mem_cons]
    exact ⟨fun h => by rcases h with (h | h) | h <;> simp [h],
      fun h => by rcases h with h | h | h <;> simp [h]⟩

/-- A field of an embedded schema was known before and does not lie below the path of the schema
that is embedded now, or is one of the fields of that schema. -/
theorem mem_embed_fields {s child : Schema δ} {path : String} {e : String × FieldType δ}
    (h : e ∈ (s.embed path child).embeddedFields) :
    (e ∈ s.embeddedFields ∧ Path.isBelow path e.1 = false) ∨
      ∃ e' ∈ child.fields ++ child.embeddedFields, e = (Path.below path e'.1, e'.2) := by
  rcases Table.mem_insertAll h with h | h
  · obtain ⟨hm, hb⟩ := List.mem_filter.1 h
    exact .inl ⟨hm, by simpa using hb⟩
  · obtain ⟨e', he', rfl⟩ := List.mem_map.1 h
    exact .inr ⟨e', he', rfl⟩

/-- A group of an embedded schema was known before and does not lie below the path of the schema
that is embedded now, or is one of the groups of that schema. -/
theorem mem_embed_groups {s child : Schema δ} {path g : String}
    (h : g ∈ (s.embed path child).embeddedGroups) :
    (g ∈ s.embeddedGroups ∧ Path.isBelow path g = false) ∨
      ∃ g' ∈ child.groups ++ child.embeddedGroups, g = Path.below path g' := by
  rcases mem_foldl_addName.1 h with h | h
  · obtain ⟨hm, hb⟩ := List.mem_filter.1 h
    exact .inl ⟨hm, by simpa using hb⟩
  · obtain ⟨g', hg', rfl⟩ := List.mem_map.1 h
    exact .inr ⟨g', hg', rfl⟩

/-- Storing a field changes what is known of embedded schemas only if it embeds one. -/
theorem adopt_cases (s : Schema δ) (path : String) (t : FieldType δ) :
    (∃ child, t.kind = .embedded child ∧
      (s.adopt path t).embeddedFields = (s.embed path child).embeddedFields ∧
      (s.adopt path t).embeddedGroups = (s.embed path child).embeddedGroups) ∨
    ((s.adopt path t).embeddedFields = s.embeddedFields ∧
      (s.adopt path t).embeddedGroups = s.embeddedGroups) := by
  unfold adopt
  split
  · next child hk => exact .inl ⟨child, hk, rfl, rfl⟩
  · exact .inr ⟨rfl, rfl⟩

/-! ### What calls leave alone -/

theorem place_ok {s s' : Schema δ} {path : String} {d : Definition δ}
    (h : s.place path d = .ok s') :
    Path.isReserved path = false ∧ s.isTaken path = false ∧
      ∃ tree, Tree.insertField (Path.segments path) d s.tree = .ok tree ∧
        s' = { s with tree := tree } := by
  unfold place at h
  split at h
  · cases h
  · next hr =>
    split at h
    · cases h
    · next ht =>
      split at h
      · cases h
      · next tree hi =>
        exact ⟨by simpa using hr, by simpa using ht, tree, hi, (Except.ok.inj h).symm⟩

theorem register_field_fst {s : Schema δ} {path : String} {d : Definition δ}
    {type : Except SchemaError (FieldType δ)} :
    (s.register (.field path d type)).1 = (s.declareAs path d type).1 := by
  rw [register]
  split <;> simp_all

/-- A field is declared if its path can be bound and its type is known. -/
theorem register_field_ok {s s' : Schema δ} {path : String} {d : Definition δ}
    {type : Except SchemaError (FieldType δ)} :
    s.register (.field path d type) = (s', .ok ()) ↔
      ∃ bound t, s.place path d = .ok bound ∧ type = .ok t ∧ bound.adopt path t = s' := by
  rw [register, declareAs]
  cases s.place path d with
  | error e => simp
  | ok bound =>
    cases type with
    | error e => simp
    | ok t => simp

theorem options_adopt (s : Schema δ) (path : String) (t : FieldType δ) :
    (s.adopt path t).options = s.options := by
  unfold adopt
  split <;> rfl

theorem options_declareAs (s : Schema δ) (path : String) (d : Definition δ)
    (type : Except SchemaError (FieldType δ)) :
    (s.declareAs path d type).1.options = s.options := by
  unfold declareAs
  split
  · rfl
  · next s' hp =>
    obtain ⟨-, -, tree, -, rfl⟩ := place_ok hp
    split
    · rfl
    · rw [options_adopt]

/-- Registering an entry does not touch the options. -/
theorem options_register (s : Schema δ) (e : TypedEntry δ) :
    (s.register e).1.options = s.options := by
  cases e with
  | missing path => rfl
  | missingItem path => rfl
  | group path => rw [register]; split <;> rfl
  | field path d type => rw [register_field_fst, options_declareAs]

/-- What no entry changes is not changed by many entries, whether or not they all succeed. -/
theorem registerAll_keeps {α : Type} {part : Schema δ → α}
    (one : ∀ s e, part (s.register e).1 = part s) (s : Schema δ) (es : List (TypedEntry δ)) :
    part (s.registerAll es).1 = part s := by
  induction es generalizing s with
  | nil => rfl
  | cons e es ih =>
    have first := one s e
    rw [registerAll]
    rcases run : s.register e with ⟨s', _ | _⟩
    · rwa [run] at first
    · rw [run] at first
      exact (ih s').trans first

/-- Registering entries does not touch the options. -/
theorem options_fst_registerAll (s : Schema δ) (es : List (TypedEntry δ)) :
    (s.registerAll es).1.options = s.options :=
  registerAll_keeps options_register s es

/-- A look-up changes at most what is remembered. -/
theorem lookup_fst (s : Schema δ) (path : String) :
    (s.lookup path).1 =
      if (s.direct? path).isNone && !s.hasGroup path && Path.isPositional path then
        (s.remember path).1
      else s := by
  unfold lookup
  dsimp only
  -- the answer is read off the schema that is left behind
  generalize (if (s.direct? path).isNone && !s.hasGroup path && Path.isPositional path then
    (s.remember path).1 else s) = s'
  split
  · rfl
  · split <;> rfl

theorem sameNames_lookup (s : Schema δ) (path : String) : SameNames s (s.lookup path).1 := by
  rw [lookup_fst]
  split
  · exact sameNames_remember s path
  · exact .refl s

theorem sameNames_classify (s : Schema δ) (path : String) : SameNames s (s.classify path).1 := by
  unfold classify
  split
  · exact .refl s
  · split
    · exact .refl s
    · split
      · exact .refl s
      · split
        · exact .refl s
        · split
          · exact sameNames_remember s path
          · exact .refl s

theorem sameNames_requiredPaths (s : Schema δ) (anew : Bool) :
    SameNames s (s.requiredPaths anew).1 := by
  unfold requiredPaths
  split
  · split <;> exact ⟨rfl, rfl, rfl, rfl, rfl, rfl⟩
  · exact ⟨rfl, rfl, rfl, rfl, rfl, rfl⟩

theorem sameNames_indexedPaths (s : Schema δ) : SameNames s s.indexedPaths.1 := by
  unfold indexedPaths
  split <;> exact ⟨rfl, rfl, rfl, rfl, rfl, rfl⟩

theorem sameNames_addIndex (s : Schema δ) (fields options : Json) :
    SameNames s (s.addIndex fields options).1 := by
  unfold addIndex
  split <;> exact ⟨rfl, rfl, rfl, rfl, rfl, rfl⟩

theorem sameNames_setOption (s : Schema δ) (key : String) (v : Json) :
    SameNames s (s.setOption key v).1 := by
  unfold setOption
  split <;> exact ⟨rfl, rfl, rfl, rfl, rfl, rfl⟩

theorem idDefinition_schemas (typeKey : String) :
    (idDefinition typeKey : Definition δ).schemas = [] := by
  by_cases hk : typeKey = "auto" <;>
    simp [idDefinition, Table.insert, hk, Definition.schemas, Definition.fieldSchemas]

variable [Document δ]

/-- What one part of a call does to a schema. -/
inductive Step (R : Schema δ → Prop) (s : Schema δ) : Schema δ → Prop where
  /-- A path is bound in the tree, but the type of the field cannot be resolved. -/
  | bind {path : String} {d : Definition δ} {e : SchemaError} {s' : Schema δ}
      (placed : s.place path d = .ok s') (failed : d.typeAt s.options path = .error e) : Step R s s'
  | declare {path : String} {d : Definition δ} {t : FieldType δ} {s' : Schema δ}
      (placed : s.place path d = .ok s') (typed : d.typeAt s.options path = .ok t)
      (inside : ∀ c ∈ t.schemas, R c) : Step R s (s'.adopt path t)
  | openGroup {path : String} (free : Table.contains s.fields path = false) :
      Step R s { s with groups := addName s.groups path }
  | declareVirtual {path : String} (options : Table Json) {tree : Table (Tree (Definition δ))}
      (new : Table.contains s.virtuals path = false)
      (placed : Tree.insertVirtual (Path.segments path) s.tree = .ok tree) :
      Step R s { s with
        tree := tree
        virtuals := Table.insert s.virtuals path { path := path, options := options } }
  | extendVirtual {path : String} {v : Virtual} {getters : List Getter} {setters : List Setter}
      (known : Table.get? s.virtuals path = some v) :
      Step R s { s with virtuals := Table.insert s.virtuals path (v.extend getters setters) }
  | remember {path : String} (unknown : s.direct? path = none) (noGroup : s.hasGroup path = false)
      (positional : Path.isPositional path = true) : Step R s (s.remember path).1
  | requiredPaths : Step R s { s with knownRequired := some s.requiredFields }
  | indexedPaths (unknown : s.knownIndexes = none) :
      Step R s { s with knownIndexes := some s.indexes }
  | addIndex (entry : IndexEntry) :
      Step R s { s with ownIndexes := s.ownIndexes ++ [entry], knownIndexes := none }
  | addHook (entry : HookEntry δ) : Step R s (s.addHook entry)
  | queue (method : String) (args : List Json) : Step R s (s.queue method args)
  | addBuiltIn : Step R s s.addBuiltIn
  | addStampHook : Step R s s.addStampHook
  | method (name : String) (m : Method δ) : Step R s (s.method name m)
  | static (name : String) (f : Static) : Step R s (s.static name f)
  | setOption {key : String} {v : Json} {o : Options} (set : s.options.set key v = .ok o) :
      Step R s { s with options := o }

abbrev Steps (R : Schema δ → Prop) : Schema δ → Schema δ → Prop := Relation.ReflTransGen (Step R)

theorem Steps.single {R : Schema δ → Prop} {s s' : Schema δ} (h : Step R s s') : Steps R s s' :=
  Relation.ReflTransGen.single h

/-- What every step keeps, any number of steps keeps. -/
theorem Steps.keep {R Inv : Schema δ → Prop} (step : ∀ s s', Step R s s' → Inv s → Inv s')
    {s s' : Schema δ} (h : Steps R s s') (hs : Inv s) : Inv s' := by
  induction h with
  | refl => exact hs
  | tail _ last ih => exact step _ _ last ih

theorem sameNames_addStampHook (s : Schema δ) : SameNames s s.addStampHook := by
  unfold addStampHook
  split <;> exact ⟨rfl, rfl, rfl, rfl, rfl, rfl⟩

/-- What a step does to the names of a schema. -/
inductive NameStep (R : Schema δ → Prop) (s : Schema δ) : Schema δ → Prop where
  | bind {path : String} {d : Definition δ} {s' : Schema δ} (placed : s.place path d = .ok s') :
      NameStep R s s'
  | declare {path : String} {d : Definition δ} {t : FieldType δ} {s' : Schema δ}
      (placed : s.place path d = .ok s') (typed : d.typeAt s.options path = .ok t)
      (inside : ∀ c ∈ t.schemas, R c) : NameStep R s (s'.adopt path t)
  | openGroup {path : String} (free : Table.contains s.fields path = false) :
      NameStep R s { s with groups := addName s.groups path }
  | declareVirtual {path : String} (options : Table Json) {tree : Table (Tree (Definition δ))}
      (new : Table.contains s.virtuals path = false)
      (placed : Tree.insertVirtual (Path.segments path) s.tree = .ok tree) :
      NameStep R s { s with
        tree := tree
        virtuals := Table.insert s.virtuals path { path := path, options := options } }
  | extendVirtual {path : String} {v : Virtual} {getters : List Getter} {setters : List Setter}
      (known : Table.get? s.virtuals path = some v) :
      NameStep R s { s with virtuals := Table.insert s.virtuals path (v.extend getters setters) }
  | other {s' : Schema δ} (same : SameNames s s') : NameStep R s s'

theorem Step.names {R : Schema δ → Prop} {s s' : Schema δ} (h : Step R s s') :
    NameStep R s s' := by
  cases h with
  | bind placed _ => exact .bind placed
  | declare placed typed inside => exact .declare placed typed inside
  | openGroup free => exact .openGroup free
  | declareVirtual options new placed => exact .declareVirtual options new placed
  | extendVirtual known => exact .extendVirtual known
  | remember => exact .other (sameNames_remember s _)
  | requiredPaths => exact .other ⟨rfl, rfl, rfl, rfl, rfl, rfl⟩
  | indexedPaths => exact .other ⟨rfl, rfl, rfl, rfl, rfl, rfl⟩
  | addIndex entry => exact .other ⟨rfl, rfl, rfl, rfl, rfl, rfl⟩
  | addHook entry => exact .other (sameNames_addHook s entry)
  | queue name args => exact .other ⟨rfl, rfl, rfl, rfl, rfl, rfl⟩
  | addBuiltIn => exact .other ⟨rfl, rfl, rfl, rfl, rfl, rfl⟩
  | addStampHook => exact .other (sameNames_addStampHook s)
  | method name m => exact .other ⟨rfl, rfl, rfl, rfl, rfl, rfl⟩
  | static name f => exact .other ⟨rfl, rfl, rfl, rfl, rfl, rfl⟩
  | setOption => exact .other ⟨rfl, rfl, rfl, rfl, rfl, rfl⟩

/-- Whether the type that an entry comes with is the one its definition has. -/
def Resolved (R : Schema δ → Prop) (o : Options) : TypedEntry δ → Prop
  | .field path d type => type = d.typeAt o path ∧ ∀ t, type = .ok t → ∀ c ∈ t.schemas, R c
  | _ => True

variable {R : Schema δ → Prop} {s s' : Schema δ} {o : Options}

/-! ### Registering entries -/

theorem steps_declareAs {path : String} {d : Definition δ}
    (h : ∀ t, d.typeAt s.options path = .ok t → ∀ c ∈ t.schemas, R c) :
    Steps R s (s.declareAs path d (d.typeAt s.options path)).1 := by
  unfold declareAs
  cases hp : s.place path d with
  | error e => exact .refl
  | ok s' =>
    cases ht : d.typeAt s.options path with
    | error e => exact .single (.bind hp ht)
    | ok t => exact .single (.declare hp ht (h t ht))

theorem steps_register {e : TypedEntry δ} (h : Resolved R s.options e) :
    Steps R s (s.register e).1 := by
  cases e with
  | missing path => exact .refl
  | missingItem path => exact .refl
  | group path =>
    rw [register]
    split
    · exact .refl
    · next hg => exact .single (.openGroup ((Table.get?_eq_none_iff _ _).1 hg))
  | field path d type =>
    obtain ⟨rfl, hR⟩ := h
    rw [register_field_fst]
    exact steps_declareAs hR

theorem steps_registerAll {es : List (TypedEntry δ)} (h : ∀ e ∈ es, Resolved R s.options e) :
    Steps R s (s.registerAll es).1 := by
  induction es generalizing s with
  | nil => exact .refl
  | cons e es ih =>
    have he : Steps R s (s.register e).1 := steps_register (h e List.mem_cons_self)
    have ho := options_register s e
    rw [registerAll]
    split
    · next s' _ hr =>
      rw [hr] at he ho
      exact he.trans (ih fun e' he' => ho ▸ h e' (List.mem_cons_of_mem _ he'))
    · next s' _ hr =>
      rw [hr] at he
      exact he

/-! ### Virtuals -/

theorem steps_extendVirtual (path : String) (options : Table Json) (getters : List Getter)
    (setters : List Setter) : Steps R s (s.extendVirtual path options getters setters).1 := by
  unfold extendVirtual virtual
  cases hg : Table.get? s.virtuals path with
  | some v => exact .single (.extendVirtual hg)
  | none =>
    cases hi : Tree.insertVirtual (Path.segments path) s.tree with
    | error blocking => exact .refl
    | ok tree =>
      have new := (Table.get?_eq_none_iff _ _).1 hg
      exact (Steps.single (.declareVirtual options new hi)).trans
        (.single (.extendVirtual (Table.get?_insert_self _ _ _)))

/-! ### Compiling -/

end Schema

namespace Definition

theorem statedType?_of_get? {record : Table (Definition δ)} {typeKey : String} {d : Definition δ}
    (hg : Table.get? record typeKey = some d) (hd : d.isUnset = false) :
    statedType? record typeKey = some d := by
  simp [statedType?, hg, hd]

variable [Document δ] {o : Options}

/-- The short way to a type is the long one where no elements have to be looked at. -/
theorem plainTypeAt_eq {path : String} {d : Definition δ}
    (h : ∀ shape', shape o.typeKey path (d.record o.typeKey) = .ok shape' →
      ∃ kind, shape' = .plain kind) :
    d.plainTypeAt o.typeKey path = d.typeAt o path := by
  rw [typeAt_eq, plainTypeAt]
  split
  · next e he => rw [he]
  · next kind hk => rw [hk]
  · next shape' hp hs =>
    obtain ⟨kind, rfl⟩ := h _ hs
    exact absurd rfl (hp kind)

/-- The identifier field has the type that its definition has, whatever the type key is. -/
theorem plainTypeAt_idDefinition (path : String) :
    (Schema.idDefinition o.typeKey : Definition δ).plainTypeAt o.typeKey path =
      (Schema.idDefinition o.typeKey).typeAt o path := by
  refine plainTypeAt_eq fun shape' hs => ?_
  by_cases hk : o.typeKey = "auto"
  · -- the mark that the identifier is set by itself takes the place of its type
    have hst : statedType? [("auto", (.literal (.bool true) : Definition δ))] "auto" =
        some (.literal (.bool true)) := statedType?_of_get? rfl rfl
    simp [Schema.idDefinition, Table.insert, hk, record, unwrapped, hst, shape] at hs
  · have hst : statedType? [(o.typeKey, (.type (.scalar .objectId) : Definition δ)),
        ("auto", .literal (.bool true))] o.typeKey = some (.type (.scalar .objectId)) :=
      statedType?_of_get? (by simp [Table.get?]) rfl
    simp only [Schema.idDefinition, Table.insert, hk, if_false, record, unwrapped, hst, shape] at hs
    exact ⟨.scalar .objectId, (Except.ok.inj hs).symm⟩

/-- A date field has the type that its definition has. -/
theorem plainTypeAt_date (path : String) :
    (Definition.type (.scalar .date) : Definition δ).plainTypeAt o.typeKey path =
      (Definition.type (.scalar .date)).typeAt o path := by
  refine plainTypeAt_eq fun shape' hs => ⟨.scalar .date, ?_⟩
  have hst : statedType? [(o.typeKey, (.type (.scalar .date) : Definition δ))] o.typeKey =
      some (.type (.scalar .date)) := statedType?_of_get? (by simp [Table.get?]) rfl
  simp only [record, hst, shape] at hs
  exact (Except.ok.inj hs).symm

end Definition

namespace Schema

variable [Document δ] {R : Schema δ → Prop} {s s' : Schema δ} {o : Options}

/-- A definition without sub-schemas whose type needs no look at elements is resolved. -/
theorem resolved_of_plain {path : String} {d : Definition δ} (hd : d.schemas = [])
    (h : d.plainTypeAt o.typeKey path = d.typeAt o path) :
    Resolved R o (.field path d (d.plainTypeAt o.typeKey path)) := by
  refine ⟨h, fun t ht c hc => ?_⟩
  have inside : ∀ kind, Definition.shape o.typeKey path (d.record o.typeKey) = .ok (.plain kind) →
      c ∉ kind.schemas := by
    intro kind hs hc
    simpa [hd] using Definition.schemas_of_plain hs c hc
  unfold Definition.plainTypeAt at ht
  rw [FieldType.schemas_eq] at hc
  split at ht
  · cases ht
  · next kind hs =>
    cases ht
    exact absurd hc (inside kind hs)
  · cases ht
    simp [Definition.fieldAt, FieldKind.schemas] at hc

theorem steps_addIdField : Steps R s s.addIdField.1 := by
  unfold addIdField
  dsimp only
  split
  · exact steps_register (resolved_of_plain (by simp [idDefinition_schemas])
      (Definition.plainTypeAt_idDefinition "_id"))
  · exact .refl

theorem steps_addIdVirtual : Steps R s s.addIdVirtual.1 := by
  have h : Steps R s (s.extendVirtual "id" [] [idText] []).1 :=
    steps_extendVirtual "id" [] [idText] []
  unfold addIdVirtual
  split
  · split <;> simp_all
  · exact .refl

theorem steps_addStampFields : Steps R s s.addStampFields.1 := by
  unfold addStampFields
  split
  · exact .refl
  · next created updated _ =>
    refine steps_registerAll fun e he => ?_
    obtain ⟨p, -, rfl⟩ := List.mem_map.1 he
    exact resolved_of_plain (by simp [Definition.schemas]) (Definition.plainTypeAt_date p)

/-- A schema is assembled in four stages, none of which fails. -/
theorem assemble_ok {es : List (TypedEntry δ)} :
    assemble o es = .ok s ↔ ∃ s₁ s₂ s₃ s₄, (empty o).registerAll es = (s₁, .ok ()) ∧
      s₁.addIdField = (s₂, .ok ()) ∧ s₂.addIdVirtual = (s₃, .ok ()) ∧
      s₃.addBuiltIn.addStampFields = (s₄, .ok ()) ∧ s₄.addStampHook = s := by
  constructor
  · intro h
    unfold assemble at h
    split at h
    · cases h
    · next s₁ _ e₁ =>
      split at h
      · cases h
      · next s₂ _ e₂ =>
        split at h
        · cases h
        · next s₃ _ e₃ =>
          split at h
          · cases h
          · next s₄ _ e₄ => exact ⟨s₁, s₂, s₃, s₄, e₁, e₂, e₃, e₄, Except.ok.inj h⟩
  · rintro ⟨s₁, s₂, s₃, s₄, e₁, e₂, e₃, e₄, rfl⟩
    simp only [assemble, e₁, e₂, e₃, e₄]

/-- A schema that was assembled is reached by steps from an empty one. -/
theorem steps_assemble {es : List (TypedEntry δ)} (he : ∀ e ∈ es, Resolved R o e)
    (h : assemble o es = .ok s) : Steps R (empty o) s := by
  obtain ⟨s₁, s₂, s₃, s₄, e₁, e₂, e₃, e₄, rfl⟩ := assemble_ok.1 h
  have h₁ : Steps R (empty o) ((empty o).registerAll es).1 := steps_registerAll he
  have h₂ : Steps R s₁ s₁.addIdField.1 := steps_addIdField
  have h₃ : Steps R s₂ s₂.addIdVirtual.1 := steps_addIdVirtual
  have h₄ : Steps R s₃.addBuiltIn s₃.addBuiltIn.addStampFields.1 := steps_addStampFields
  rw [e₁] at h₁
  rw [e₂] at h₂
  rw [e₃] at h₃
  rw [e₄] at h₄
  -- the order in which a schema is assembled
  calc Steps R (empty o) s₁ := h₁
    Steps R _ s₂ := h₂
    Steps R _ s₃ := h₃
    Steps R _ s₃.addBuiltIn := .single .addBuiltIn
    Steps R _ s₄ := h₄
    Steps R _ s₄.addStampHook := .single .addStampHook

/-- The property `R` holds of every schema that is compiled from sub-schemas with this property. -/
def Closed (R : Schema δ → Prop) : Prop :=
  ∀ (o : Options) (d : Definition δ) (s : Schema δ), (∀ c ∈ d.schemas, R c) →
    compile o d = .ok s → Steps R (empty o) s → R s

theorem closed_true : Closed fun _ : Schema δ => True := fun _ _ _ _ _ _ => trivial

-- The three go round as `compile` and `typeAt` do: a schema is compiled from entries, an entry is
-- resolved by its type, and a type may hold a schema that is compiled from a smaller definition.
mutual

/-- The entries of a definition are resolved by their own types. -/
theorem resolved_entries (hR : Closed R) (o : Options) (fields : List (String × Definition δ))
    (hd : ∀ c ∈ Definition.fieldSchemas fields, R c) (front : String) :
    ∀ e ∈ (Definition.entries o.typeKey front fields).map
      (Entry.withType fun p x => x.typeAt o p), Resolved R o e := by
  intro e he
  obtain ⟨e', he', rfl⟩ := List.mem_map.1 he
  cases e' with
  | missing path => trivial
  | missingItem path => trivial
  | group path => trivial
  | field path x u =>
    have hx := Definition.sizeOf_lt_of_mem_entries fields he'
    exact ⟨rfl, fun t ht => inside_typeAt hR o x
      (fun c hc => hd c (Definition.schemas_of_mem_entries fields he' c hc)) ht⟩
termination_by (sizeOf fields, 0)

/-- The schemas inside a type have the property `R`, whether they were given or stand inline. -/
theorem inside_typeAt (hR : Closed R) (o : Options) (d : Definition δ) (hd : ∀ c ∈ d.schemas, R c)
    {path : String} {t : FieldType δ} (h : d.typeAt o path = .ok t) : ∀ c ∈ t.schemas, R c := by
  intro c hc
  rcases Definition.schemas_typeAt h c hc with hc | ⟨x, hlt, hx, hs⟩
  · exact hd c hc
  · have hxR : ∀ b ∈ x.schemas, R b := fun b hb => hd b (hx b hb)
    exact hR _ x c hxR hs (steps_compile hR _ x c hxR hs)
termination_by (sizeOf d, 0)

/-- A compiled schema is reached by steps from an empty one. -/
theorem steps_compile (hR : Closed R) (o : Options) (d : Definition δ) (s : Schema δ)
    (hd : ∀ c ∈ d.schemas, R c) (h : compile o d = .ok s) : Steps R (empty o) s := by
  unfold compile at h
  split at h
  · next fields => exact steps_assemble (resolved_entries hR o fields hd "") h
  · exact steps_assemble (by simp) h
  · cases h
termination_by (sizeOf d, 1)

end

/-! ### Making calls -/

theorem steps_declare (hR : Closed R) {path : String} {d : Definition δ}
    (hd : ∀ c ∈ d.schemas, R c) : Steps R s (s.declare path d).1 :=
  steps_declareAs fun _ ht => inside_typeAt hR s.options d hd ht

theorem steps_add (hR : Closed R) {d : Definition δ} (hd : ∀ c ∈ d.schemas, R c)
    (front : String) : Steps R s (s.add d front).1 := by
  unfold add
  split
  · next fields => exact steps_registerAll (resolved_entries hR s.options fields hd front)
  · exact .refl

theorem steps_lookup (path : String) : Steps R s (s.lookup path).1 := by
  rw [lookup_fst]
  split
  · next h =>
    simp only [Bool.and_eq_true, Option.isNone_iff_eq_none, Bool.not_eq_true'] at h
    exact .single (.remember h.1.1 h.1.2 h.2)
  · exact .refl

theorem steps_classify (path : String) : Steps R s (s.classify path).1 := by
  unfold classify
  split
  · exact .refl
  · split
    · exact .refl
    · split
      · exact .refl
      · next hg =>
        split
        · exact .refl
        · next hn =>
          split
          · next hp => exact .single (.remember (by simpa using hn) (by simpa using hg) hp)
          · exact .refl

theorem steps_requiredPaths (anew : Bool) : Steps R s (s.requiredPaths anew).1 := by
  unfold requiredPaths
  split
  · split
    · exact .single .requiredPaths
    · exact .refl
  · exact .single .requiredPaths

theorem steps_indexedPaths : Steps R s s.indexedPaths.1 := by
  unfold indexedPaths
  split
  · exact .refl
  · next hk => exact .single (.indexedPaths hk)

theorem steps_addIndex (fields options : Json) : Steps R s (s.addIndex fields options).1 := by
  unfold addIndex
  split
  · exact .refl
  · exact .single (.addIndex _)

theorem steps_setOption (key : String) (v : Json) : Steps R s (s.setOption key v).1 := by
  unfold setOption
  split
  · next o ho => exact .single (.setOption ho)
  · exact .refl

end Schema

namespace Call

open Schema

variable [Document δ]

mutual

/-- The compiled schemas that a call brings in with the definitions that it declares. -/
def schemas : Call δ → List (Schema δ)
  | .add d _ => d.schemas
  | .declare _ d => d.schemas
  | .plugin calls => allSchemas calls
  | .attempt c => schemas c
  | _ => []

def allSchemas : List (Call δ) → List (Schema δ)
  | [] => []
  | c :: cs => schemas c ++ allSchemas cs

end

variable {R : Schema δ → Prop}

mutual

/-- Whatever a call does, also where it fails, it does by steps. -/
theorem steps_run (hR : Closed R) :
    ∀ (c : Call δ) (s : Schema δ), (∀ b ∈ c.schemas, R b) → Steps R s (run s c).1
  | .add _ front, _, h => steps_add hR h front
  | .declare _ _, _, h => steps_declare hR h
  | .lookup path, _, _ => steps_lookup path
  | .classify path, _, _ => steps_classify path
  | .requiredPaths anew, _, _ => steps_requiredPaths anew
  | .index fields options, _, _ => steps_addIndex fields options
  | .indexedPaths, _, _ => steps_indexedPaths
  | .virtual path options getters setters, _, _ => steps_extendVirtual path options getters setters
  | .queue name args, _, _ => .single (.queue name args)
  | .pre _ _, _, _ => .single (.addHook _)
  | .post _ _, _, _ => .single (.addHook _)
  | .postWithNext _ _, _, _ => .single (.addHook _)
  | .method name m, _, _ => .single (.method name m)
  | .static name f, _, _ => .single (.static name f)
  | .set key v, _, _ => steps_setOption key v
  | .plugin calls, s, h => steps_runUntilError hR calls s h
  | .compile _ _, _, _ => .refl
  | .attempt c, s, h => steps_run hR c s h
  | .fail _, _, _ => .refl

theorem steps_runUntilError (hR : Closed R) :
    ∀ (cs : List (Call δ)) (s : Schema δ), (∀ b ∈ allSchemas cs, R b) →
      Steps R s (runUntilError s cs).1
  | [], _, _ => .refl
  | c :: cs, s, h => by
    have hc := steps_run hR c s fun b hb => h b (List.mem_append_left _ hb)
    rw [runUntilError]
    split
    · next s' _ hr =>
      rw [hr] at hc
      exact hc.trans (steps_runUntilError hR cs s' fun b hb => h b (List.mem_append_right _ hb))
    · next s' _ hr =>
      rw [hr] at hc
      exact hc

end

theorem steps_runAll (hR : Closed R) :
    ∀ (cs : List (Call δ)) (s : Schema δ), (∀ b ∈ allSchemas cs, R b) →
      Steps R s (runAll s cs)
  | [], _, _ => .refl
  | c :: cs, s, h =>
    have first := steps_run hR c s fun b hb => h b (List.mem_append_left _ hb)
    first.trans (steps_runAll hR cs _ fun b hb => h b (List.mem_append_right _ hb))

/-- Whatever is called on a compiled schema, steps from an empty one lead there. -/
theorem steps_compile_runAll {o : Options} {d : Definition δ} {s₀ : Schema δ}
    (compiled : Schema.compile o d = .ok s₀) (calls : List (Call δ)) :
    Steps (fun _ => True) (empty o) (runAll s₀ calls) :=
  (steps_compile closed_true o d s₀ (fun _ _ => trivial) compiled).trans
    (steps_runAll closed_true calls s₀ fun _ _ => trivial)

end Call

end DocSchema
