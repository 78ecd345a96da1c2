import DocSchema.Proofs.Schema.IndexWalk
import DocSchema.Proofs.Schema.Spelling
import DocSchema.Proofs.Tree.Mapping

/-!
# Schemas with another type key

`Schema.rekey` is a schema with another type key: its paths, the kinds and settings of its fields,
its groups, virtuals and hooks are the same, in its sub-schemas too. Only the definitions in its
tree are spelled with the other key, and settings without a place of their own may be.

No declaration depends on the difference, so declaring goes together with a change of the key
(`registerAll_rekey`), and the indexes are the same (`indexes_rekey`).
-/

namespace DocSchema

variable {δ τ σ : Type}

/-- Settings whose values without a place of their own are changed. -/
def Settings.mapExtra (f : Json → Json) (s : Settings) : Settings :=
  { s with extra := Table.mapValues f s.extra }

@[simp] theorem Settings.mapExtra_id (s : Settings) : s.mapExtra id = s := by
  simp [mapExtra, Table.mapValues]

mutual

def Schema.rekey (old new : String) (keep : Json → Json) : Schema δ → Schema δ
  | s@{ options := o, fields := fields, embeddedFields := embedded, tree := tree, .. } =>
    { s with
      options := { o with typeKey := new }
      fields := Schema.rekeyFields old new keep fields
      embeddedFields := Schema.rekeyFields old new keep embedded
      tree := Tree.mapChildren (Definition.rename old new) tree }
termination_by structural s => s

def Schema.rekeyFields (old new : String) (keep : Json → Json) :
    List (String × FieldType δ) → List (String × FieldType δ)
  | [] => []
  | (path, t) :: rest =>
    (path, FieldType.rekey old new keep t) :: Schema.rekeyFields old new keep rest
termination_by structural fields => fields

def FieldType.rekey (old new : String) (keep : Json → Json) : FieldType δ → FieldType δ
  | { path := path, kind := kind, settings := settings } =>
    { path := path, kind := FieldKind.rekey old new keep kind, settings := settings.mapExtra keep }
termination_by structural t => t

def FieldKind.rekey (old new : String) (keep : Json → Json) : FieldKind δ → FieldKind δ
  | .scalar s => .scalar s
  | .mixed => .mixed
  | .embedded s => .embedded (Schema.rekey old new keep s)
  | .documents s => .documents (Schema.rekey old new keep s)
  | .array element => .array (FieldType.rekey old new keep element)
termination_by structural kind => kind

end

def Entry.map (f : Definition δ → Definition δ) (g : τ → σ) : Entry δ τ → Entry δ σ
  | .missing path => .missing path
  | .missingItem path => .missingItem path
  | .group path => .group path
  | .field path d type => .field path (f d) (g type)

variable {old new : String} {keep : Json → Json}

namespace FieldType

theorem rekey_eq (t : FieldType δ) :
    t.rekey old new keep =
      { path := t.path
        kind := t.kind.rekey old new keep
        settings := t.settings.mapExtra keep } := by
  cases t
  rfl

@[simp] theorem rekey_kind (t : FieldType δ) :
    (t.rekey old new keep).kind = t.kind.rekey old new keep := by
  rw [rekey_eq]

@[simp] theorem rekey_instanceName (t : FieldType δ) :
    (t.rekey old new keep).instanceName = t.instanceName := by
  rw [instanceName, instanceName, rekey_kind]
  cases t.kind <;> rfl

@[simp] theorem rekey_element? (t : FieldType δ) :
    (t.rekey old new keep).element? = t.element?.map (rekey old new keep) := by
  rw [element?, element?, rekey_kind]
  cases t.kind <;> rfl

@[simp] theorem rekey_index? (t : FieldType δ) : (t.rekey old new keep).index? = t.index? := by
  have own (t : FieldType δ) : (t.rekey old new keep).settings.index = t.settings.index := by
    rw [rekey_eq]
    rfl
  rw [index?, index?, own, rekey_element?, Option.bind_map]
  congr 2
  funext element
  exact own element

theorem rekey_indexEntries (front path : String) (t : FieldType δ) :
    (t.rekey old new keep).indexEntries front path = t.indexEntries front path := by
  rw [indexEntries, indexEntries, rekey_index?]

end FieldType

@[simp] theorem FieldKind.rekey_scalar? (kind : FieldKind δ) :
    (kind.rekey old new keep).scalar? = kind.scalar? := by
  cases kind <;> rfl

namespace Schema

theorem rekeyFields_eq (fields : List (String × FieldType δ)) :
    rekeyFields old new keep fields = Table.mapValues (FieldType.rekey old new keep) fields := by
  induction fields with
  | nil => rfl
  | cons e fields ih =>
    obtain ⟨path, t⟩ := e
    rw [rekeyFields, ih]
    rfl

def TypedEntry.rekey (old new : String) (keep : Json → Json) (e : TypedEntry δ) : TypedEntry δ :=
  e.map (Definition.rename old new) (Except.map (FieldType.rekey old new keep))

variable (s : Schema δ)

theorem rekey_eq :
    s.rekey old new keep =
      { s with
        options := { s.options with typeKey := new }
        fields := Table.mapValues (FieldType.rekey old new keep) s.fields
        embeddedFields := Table.mapValues (FieldType.rekey old new keep) s.embeddedFields
        tree := Tree.mapChildren (Definition.rename old new) s.tree } := by
  cases s
  rw [rekey, rekeyFields_eq, rekeyFields_eq]

@[simp] theorem rekey_options :
    (s.rekey old new keep).options = { s.options with typeKey := new } := by
  rw [rekey_eq]

@[simp] theorem rekey_fields :
    (s.rekey old new keep).fields = Table.mapValues (FieldType.rekey old new keep) s.fields := by
  rw [rekey_eq]

@[simp] theorem rekey_groups : (s.rekey old new keep).groups = s.groups := by
  rw [rekey_eq]

@[simp] theorem rekey_virtuals : (s.rekey old new keep).virtuals = s.virtuals := by
  rw [rekey_eq]

@[simp] theorem rekey_tree :
    (s.rekey old new keep).tree = Tree.mapChildren (Definition.rename old new) s.tree := by
  rw [rekey_eq]

@[simp] theorem get?_rekey_fields (path : String) :
    Table.get? (s.rekey old new keep).fields path =
      (Table.get? s.fields path).map (FieldType.rekey old new keep) := by
  rw [rekey_fields, Table.get?_mapValues]

@[simp] theorem contains_rekey_fields (path : String) :
    Table.contains (s.rekey old new keep).fields path = Table.contains s.fields path := by
  rw [Table.contains, Table.contains, get?_rekey_fields, Option.isSome_map]

/-! ### Declaring fields -/

theorem conflict_rekey (path parent : String) :
    (s.rekey old new keep).conflict path parent = s.conflict path parent := by
  rw [conflict, conflict, get?_rekey_fields, rekey_virtuals]
  cases Table.get? s.fields parent <;> simp

theorem isTaken_rekey (path : String) :
    (s.rekey old new keep).isTaken path = s.isTaken path := by
  rw [isTaken, isTaken, rekey_groups, rekey_virtuals, rekey_tree, Tree.get?_map]
  cases Tree.get? (Path.segments path) s.tree with
  | none => rfl
  | some x => cases x <;> rfl

theorem place_rekey (path : String) (d : Definition δ) :
    (s.rekey old new keep).place path (d.rename old new) =
      (s.place path d).map (rekey old new keep) := by
  rw [place, place, isTaken_rekey, conflict_rekey, rekey_tree, Tree.insertField_map]
  split
  · rfl
  · split
    · rfl
    · cases Tree.insertField (Path.segments path) d s.tree with
      | error blocking => exact congrArg Except.error (conflict_rekey s path _)
      | ok tree => simp [Except.map, rekey_eq]

theorem embed_rekey (path : String) (child : Schema δ) :
    (s.rekey old new keep).embed path (child.rekey old new keep) =
      (s.embed path child).rekey old new keep := by
  have below (es : Table (FieldType δ)) :
      (Table.mapValues (FieldType.rekey old new keep) es).map
          (fun e => (Path.below path e.1, e.2)) =
        Table.mapValues (FieldType.rekey old new keep)
          (es.map fun e => (Path.below path e.1, e.2)) := by
    simp [Table.mapValues, Function.comp_def]
  have apart (es : Table (FieldType δ)) :
      (Table.mapValues (FieldType.rekey old new keep) es).filter
          (fun e => !Path.isBelow path e.1) =
        Table.mapValues (FieldType.rekey old new keep)
          (es.filter fun e => !Path.isBelow path e.1) := by
    simp [Table.mapValues, List.filter_map, Function.comp_def]
  have appended (es es' : Table (FieldType δ)) :
      Table.mapValues (FieldType.rekey old new keep) es ++
          Table.mapValues (FieldType.rekey old new keep) es' =
        Table.mapValues (FieldType.rekey old new keep) (es ++ es') :=
    List.map_append.symm
  simp only [embed, rekey_eq, apart, appended, below, Table.mapValues_insertAll]

theorem adopt_rekey (path : String) (t : FieldType δ) :
    (s.rekey old new keep).adopt path (t.rekey old new keep) =
      (s.adopt path t).rekey old new keep := by
  have stored (s : Schema δ) :
      { s.rekey old new keep with
        located := []
        knownIndexes := none
        fields := Table.insert (s.rekey old new keep).fields path (t.rekey old new keep) } =
      Schema.rekey old new keep
        { s with located := [], knownIndexes := none, fields := Table.insert s.fields path t } := by
    simp only [rekey_eq, Table.mapValues_insert]
  rw [adopt, adopt, FieldType.rekey_kind]
  cases t.kind with
  | embedded child =>
    simp only [FieldKind.rekey, embed_rekey]
    exact stored (s.embed path child)
  | _ => exact stored s

theorem register_rekey (e : TypedEntry δ) :
    (s.rekey old new keep).register (e.rekey old new keep) =
      ((s.register e).1.rekey old new keep, (s.register e).2) := by
  cases e with
  | missing path => rfl
  | missingItem path => rfl
  | group path =>
    rw [TypedEntry.rekey, Entry.map, register, register, get?_rekey_fields]
    cases Table.get? s.fields path with
    | none => simp [rekey_eq]
    | some t => simp
  | field path d type =>
    rw [TypedEntry.rekey, Entry.map, register, register, declareAs, declareAs, place_rekey]
    cases s.place path d with
    | error e => rfl
    | ok s' =>
      cases type with
      | error e => rfl
      | ok t => simp only [Except.map, adopt_rekey]

/-- Declaring entries goes together with a change of the type key. -/
theorem registerAll_rekey (es : List (TypedEntry δ)) :
    (s.rekey old new keep).registerAll (es.map (TypedEntry.rekey old new keep)) =
      ((s.registerAll es).1.rekey old new keep, (s.registerAll es).2) := by
  induction es generalizing s with
  | nil => rfl
  | cons e es ih =>
    rw [List.map_cons, registerAll, registerAll, register_rekey]
    rcases s.register e with ⟨s', _ | _⟩
    · rfl
    · exact ih s'

/-! ### Virtuals -/

theorem virtual_rekey (path : String) (options : Table Json) :
    (s.rekey old new keep).virtual path options =
      ((s.virtual path options).1.rekey old new keep, (s.virtual path options).2) := by
  rw [virtual, virtual, rekey_virtuals, rekey_tree, Tree.insertVirtual_map]
  cases Table.get? s.virtuals path with
  | some v => rfl
  | none =>
    cases Tree.insertVirtual (Path.segments path) s.tree with
    | error blocking => simp [Except.map, conflict_rekey]
    | ok tree => simp [Except.map, rekey_eq]

theorem extendVirtual_rekey (path : String) (options : Table Json) (getters : List Getter)
    (setters : List Setter) :
    (s.rekey old new keep).extendVirtual path options getters setters =
      ((s.extendVirtual path options getters setters).1.rekey old new keep,
        (s.extendVirtual path options getters setters).2) := by
  rw [extendVirtual, extendVirtual, virtual_rekey]
  rcases s.virtual path options with ⟨s', e | v⟩
  · rfl
  · simp [rekey_eq]

/-! ### Indexes -/

mutual

theorem walk_rekey (front : String) (seen : List String) : ∀ s : Schema δ,
    walk front seen (s.rekey old new keep) = walk front seen s
  | { fields := fields, ownIndexes := own, .. } => by
    rw [rekey, walk, walk, walkFields_rekey front _ fields]

theorem walkFields_rekey (front : String) (seen : List String) :
    ∀ fields : List (String × FieldType δ),
      walkFields front seen (rekeyFields old new keep fields) = walkFields front seen fields
  | [] => rfl
  | (path, t) :: rest => by
    have others (seen : List String) := walkFields_rekey front seen rest
    rw [rekeyFields, walkFields, walkFields, walkField_rekey front path seen t]
    simp only [others]

theorem walkField_rekey (front path : String) (seen : List String) : ∀ t : FieldType δ,
    walkField front path seen (t.rekey old new keep) = walkField front path seen t
  | { path := _, kind := .embedded s, settings := _ } => walk_rekey (front ++ path ++ ".") seen s
  | { path := _, kind := .documents s, settings := _ } => walk_rekey (front ++ path ++ ".") seen s
  | { path := _, kind := .scalar _, settings := _ } => by
    rw [walkField_leaf rfl, walkField_leaf rfl, FieldType.rekey_indexEntries]
  | { path := _, kind := .mixed, settings := _ } => by
    rw [walkField_leaf rfl, walkField_leaf rfl, FieldType.rekey_indexEntries]
  | { path := _, kind := .array _, settings := _ } => by
    rw [walkField_leaf rfl, walkField_leaf rfl, FieldType.rekey_indexEntries]

end

/-- The indexes do not depend on the type key. -/
theorem indexes_rekey : (s.rekey old new keep).indexes = s.indexes := by
  rw [indexes, indexes, walk_rekey]

end Schema

end DocSchema
