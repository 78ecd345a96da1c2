import DocSchema.Proofs.Schema.Rebinding
import DocSchema.Proofs.Schema.Redeclared

/-!
# Fields that are added by themselves

Once the entries of a definition are declared, a schema gets an identifier field, a virtual that
shows it, and the times of creation and update. Under bare options none of this is added, and the
schema is the one that the entries declare (`assemble_bare`).

The identifier is not added where there is such a field or group, nor is the time of creation where
there is such a field. The time of the last update is always added, in the place of a field that has
its name (`compile_keeps_fields`).

The identifier is in the way of a definition in two cases only (`compile_identified_iff`): its own
definition has a setting, whose key may be the type key, and a name with dots may make a branch in
the place of the identifier that is no group.
-/

namespace DocSchema

open Definition

variable {δ : Type} {o : Options} {s s' : Schema δ}

/-- The name of the time of the last update, if times are kept. -/
def Options.updatedName? (o : Options) : Option String := o.timestamps.fields?.map Prod.snd

/-- A branch leads to a leaf. -/
theorem Tree.Sound.exists_leaf {α : Type} {x : Tree α} (h : Sound x) :
    ∀ children, x = .branch children →
      ∃ names leaf, names ≠ [] ∧ get? names children = some leaf ∧ leaf.isBranch = false := by
  induction h with
  | field a => exact fun _ same => by cases same
  | virtual => exact fun _ same => by cases same
  | @branch children some_child distinct inner ih =>
    intro _ same
    cases same
    obtain ⟨⟨k, y⟩, rest, rfl⟩ := List.exists_cons_of_ne_nil some_child
    have first : Table.get? ((k, y) :: rest) k = some y := by simp [Table.get?]
    cases y with
    | branch below =>
      obtain ⟨names, leaf, given, found, isLeaf⟩ := ih _ List.mem_cons_self below rfl
      exact ⟨k :: names, leaf, List.cons_ne_nil k names,
        (get?_cons given (inner?_of_branch first)).trans found, isLeaf⟩
    | field a => exact ⟨[k], .field a, List.cons_ne_nil k [], first, rfl⟩
    | virtual => exact ⟨[k], .virtual, List.cons_ne_nil k [], first, rfl⟩

namespace Schema

/-! ### Options do not count while entries are declared -/

def withOptions (s : Schema δ) (o : Options) : Schema δ := { s with options := o }

theorem place_withOptions (s : Schema δ) (o : Options) (path : String) (d : Definition δ) :
    (s.withOptions o).place path d = (s.place path d).map (withOptions · o) := by
  unfold place
  split
  · rfl
  · have taken : (s.withOptions o).isTaken path = s.isTaken path := rfl
    rw [taken]
    split
    · rfl
    · have tree : (s.withOptions o).tree = s.tree := rfl
      rw [tree]
      split <;> rfl

theorem adopt_withOptions (s : Schema δ) (o : Options) (path : String) (t : FieldType δ) :
    (s.withOptions o).adopt path t = (s.adopt path t).withOptions o := by
  unfold adopt
  split <;> rfl

theorem register_withOptions (s : Schema δ) (o : Options) (e : TypedEntry δ) :
    (s.withOptions o).register e = ((s.register e).1.withOptions o, (s.register e).2) := by
  cases e with
  | missing path => rfl
  | missingItem path => rfl
  | group path =>
    have fields : (s.withOptions o).fields = s.fields := rfl
    rw [register, register, fields]
    split <;> rfl
  | field path d type =>
    rw [register, register, declareAs, declareAs, place_withOptions]
    cases s.place path d with
    | error e => rfl
    | ok bound =>
      cases type with
      | error e => rfl
      | ok t =>
        simp only [Except.map, adopt_withOptions]

theorem registerAll_withOptions (s : Schema δ) (o : Options) (es : List (TypedEntry δ)) :
    (s.withOptions o).registerAll es =
      ((s.registerAll es).1.withOptions o, (s.registerAll es).2) := by
  induction es generalizing s with
  | nil => rfl
  | cons e es ih =>
    rcases run : s.register e with ⟨s₁, err | u⟩
    · have run' := register_withOptions s o e
      rw [run] at run'
      rw [registerAll_of_error run, registerAll_of_error run']
    · have run' := register_withOptions s o e
      rw [run] at run'
      rw [registerAll_of_ok run, registerAll_of_ok run', ih]

/-! ### Bare schemas -/

variable [Document δ]

/-- What a definition compiles to is assembled from the same entries under all options that are
inherited alike. -/
theorem exists_entries {d : Definition δ} (compiled : compile o d = .ok s) :
    ∃ es, ∀ o', o'.forChild = o.forChild →
      compile o' d = assemble o' es ∧ ∀ e ∈ es, Faithful o' (fun _ => True) e := by
  unfold compile at compiled
  split at compiled
  · next fields =>
    refine ⟨(entries o.typeKey "" fields).map (Entry.withType fun p x => x.typeAt o p),
      fun o' same => ?_⟩
    have key : o'.forChild.typeKey = o.forChild.typeKey := by rw [same]
    change o'.typeKey = o.typeKey at key
    have types : (fun p (x : Definition δ) => x.typeAt o p) = fun p x => x.typeAt o' p :=
      funext fun p => funext fun x => (typeAt_congr_options same p x).symm
    rw [types, ← key]
    exact ⟨rfl, faithful_entries o' "" fields⟩
  · exact ⟨[], fun o' _ => ⟨rfl, by simp⟩⟩
  · cases compiled

/-- Under bare options a schema is what its entries declare. -/
theorem assemble_bare {es : List (TypedEntry δ)} (o : Options) :
    assemble o.bare es = .ok s' ↔ ∃ s₁, (empty o).registerAll es = (s₁, .ok ()) ∧
      s' = s₁.addBuiltIn.withOptions o.bare := by
  have same : (empty o.bare : Schema δ) = (empty o).withOptions o.bare := rfl
  rw [assemble_ok, same, registerAll_withOptions]
  rcases run : (empty o).registerAll es with ⟨s₁, err | u⟩
  · simp
  · have identified : (s₁.withOptions o.bare).addIdField = (s₁.withOptions o.bare, .ok ()) := rfl
    have shown : (s₁.withOptions o.bare).addIdVirtual = (s₁.withOptions o.bare, .ok ()) := rfl
    have stamped : (s₁.withOptions o.bare).addBuiltIn.addStampFields =
      ((s₁.withOptions o.bare).addBuiltIn, .ok ()) := rfl
    constructor
    · rintro ⟨_, _, _, _, ⟨⟩, h₂, h₃, h₄, rfl⟩
      cases identified.symm.trans h₂
      cases shown.symm.trans h₃
      cases stamped.symm.trans h₄
      exact ⟨s₁, rfl, rfl⟩
    · rintro ⟨_, ⟨⟩, rfl⟩
      exact ⟨_, _, _, _, rfl, identified, shown, stamped, rfl⟩

/-! ### Fields that are kept -/

omit [Document δ] in
theorem get?_register {path other : String} {d : Definition δ}
    {type : Except SchemaError (FieldType δ)}
    (run : s.register (.field path d type) = (s', .ok ())) (apart : other ≠ path) :
    Table.get? s'.fields other = Table.get? s.fields other := by
  obtain ⟨bound, t, placed, -, rfl⟩ := register_field_ok.1 run
  obtain ⟨-, -, tree, -, rfl⟩ := place_ok placed
  rw [adopt_fields, Table.get?_insert_of_ne _ _ apart]

/-- A field is kept where an identifier is added. -/
theorem get?_addIdField {path : String} {t : FieldType δ} (run : s.addIdField = (s', .ok ()))
    (there : Table.get? s.fields path = some t) : Table.get? s'.fields path = some t := by
  rw [addIdField_eq] at run
  split at run
  · next lacks =>
    have apart : path ≠ "_id" := by
      rintro rfl
      simp [lacksId, Table.contains, there] at lacks
    rw [get?_register run apart, there]
  · cases run
    exact there

def timeField (typeKey path : String) : FieldType δ :=
  (Definition.type (.scalar .date)).fieldAt typeKey path (.scalar .date)

theorem typeAt_time (o : Options) (path : String) :
    (Definition.type (.scalar .date) : Definition δ).typeAt o path =
      .ok (timeField o.typeKey path) := by
  have stated : statedType? [(o.typeKey, (Definition.type (.scalar .date) : Definition δ))]
      o.typeKey = some (.type (.scalar .date)) := statedType?_of_get? (by simp [Table.get?]) rfl
  have shape : shape o.typeKey path ((Definition.type (.scalar .date) : Definition δ).record
      o.typeKey) = .ok (.plain (.scalar .date)) := by
    rw [record, Definition.shape, stated]
    · rfl
    · simp
  rw [typeAt_eq, shape]
  rfl

/-- A time takes the place of the field that has its name. -/
theorem get?_times : ∀ {paths : List String} {s : Schema δ},
    s.registerAll (paths.map (dateEntry o.typeKey)) = (s', .ok ()) → ∀ path,
      Table.get? s'.fields path =
        if path ∈ paths then some (timeField o.typeKey path) else Table.get? s.fields path
  | [], s, run, path => by
    cases run
    rfl
  | p :: paths, s, run, path => by
    rw [List.map_cons, registerAll, dateEntry_eq] at run
    split at run
    · next s₁ _ first =>
      rw [get?_times run path]
      by_cases later : path ∈ paths
      · simp [later]
      · by_cases here : path = p
        · subst here
          obtain ⟨bound, t, -, typed, rfl⟩ := register_field_ok.1 first
          cases typed.symm.trans (typeAt_time o path)
          simp [later, adopt_fields]
        · simp [later, here, get?_register first here]
    · cases run

theorem get?_addStampFields {path : String} {t : FieldType δ}
    (run : s.addStampFields = (s', .ok ())) (there : Table.get? s.fields path = some t) :
    Table.get? s'.fields path =
      if s.options.updatedName? = some path then
        some (timeField s.options.typeKey path)
      else some t := by
  rw [addStampFields] at run
  unfold Options.updatedName?
  cases names : s.options.timestamps.fields? with
  | none =>
    rw [names] at run
    cases run
    simpa using there
  | some times =>
    obtain ⟨created, updated⟩ := times
    rw [names] at run
    rw [get?_times run, there]
    have stamped : path ∈ s.stampPaths created updated ↔ path = updated := by
      unfold stampPaths
      split
      · simp
      · next free =>
        have apart : path ≠ created := by
          rintro rfl
          exact free ((Table.contains_iff_get? _ _).2 ⟨t, there⟩)
        simp [mem_addName, apart]
    simp [stamped, eq_comm]

/-- What is added by itself leaves the declared fields as they are, but for the one that has the
name of the time of the last update. -/
theorem compile_keeps_fields {d : Definition δ} (compiled : compile o d = .ok s)
    (bare : compile o.bare d = .ok s') :
    ∀ path t, Table.get? s'.fields path = some t →
      Table.get? s.fields path =
        if o.updatedName? = some path then some (timeField o.typeKey path) else some t := by
  intro path t there
  obtain ⟨es, same⟩ := exists_entries compiled
  rw [(same o.bare rfl).1] at bare
  rw [(same o rfl).1] at compiled
  obtain ⟨s₁, declared, rfl⟩ := (assemble_bare o).1 bare
  obtain ⟨_, s₂, s₃, s₄, declared', identified, shown, stamped, rfl⟩ := assemble_ok.1 compiled
  cases declared.symm.trans declared'
  have there₂ := get?_addIdField identified there
  have shows := showsId_addIdVirtual shown
  have there₃ : Table.get? s₃.addBuiltIn.fields path = some t := by
    show Table.get? s₃.fields path = some t
    rw [shows.fields, there₂]
  have options : s₃.addBuiltIn.options = o :=
    calc s₃.options = s₂.options := shows.options
      _ = s₁.options := options_addIdField identified
      _ = o := options_registerAll declared
  rw [(sameNames_addStampHook s₄).fields, get?_addStampFields stamped there₃, options]

/-- A visit that has an identifier and a time of creation of its own. -/
def ownTimes : Definition MemoryDocument :=
  .object [("_id", .literal (.str "Number")),
    ("createdAt", .object [("type", .literal (.str "Date")), ("index", .literal (.bool true))])]

def timedOptions : Options :=
  { timestamps := .enabled Timestamps.createdAt Timestamps.updatedAt }

theorem compile_keeps_fields_visit : ∃ s s' : Schema MemoryDocument, ∃ t,
    compile timedOptions ownTimes = .ok s ∧ compile timedOptions.bare ownTimes = .ok s' ∧
      Table.get? s'.fields "createdAt" = some t ∧ t.settings.index.isSome = true ∧
        Table.get? s.fields "createdAt" = some t := by
  have h : ((compile timedOptions ownTimes).toOption.any fun _ =>
      (compile timedOptions.bare ownTimes).toOption.any fun s' =>
        (Table.get? s'.fields "createdAt").any fun t => t.settings.index.isSome) = true := by
    decide +kernel
  obtain ⟨s, compiled, h⟩ := exists_ok_of_any h
  obtain ⟨s', bare, h⟩ := exists_ok_of_any h
  obtain ⟨t, there, indexed⟩ := (Option.any_eq_true _ _).1 h
  have kept := compile_keeps_fields compiled bare "createdAt" t there
  rw [if_neg (by decide)] at kept
  exact ⟨s, s', t, compiled, bare, there, indexed, kept⟩

/-- A visit that is indexed by the time of its last update. -/
def ownUpdate : Definition MemoryDocument :=
  .object [("updatedAt",
    .object [("type", .literal (.str "Date")), ("index", .literal (.bool true))])]

/-- The index of a declared time of the last update is lost. -/
theorem lost_update_index : ∃ s s' : Schema MemoryDocument, ∃ t,
    compile { timedOptions with idField := false, idVirtual := false } ownUpdate = .ok s ∧
      compile timedOptions.bare ownUpdate = .ok s' ∧
        Table.get? s'.fields "updatedAt" = some t ∧ Table.get? s.fields "updatedAt" ≠ some t := by
  have h : ((compile { timedOptions with idField := false, idVirtual := false }
      ownUpdate).toOption.any fun s =>
        (compile timedOptions.bare ownUpdate).toOption.any fun s' =>
          (Table.get? s.fields "updatedAt").all (fun t => t.settings.index.isNone) &&
          (Table.get? s'.fields "updatedAt").any fun t => t.settings.index.isSome) = true := by
    decide +kernel
  obtain ⟨s, compiled, h⟩ := exists_ok_of_any h
  obtain ⟨s', bare, h⟩ := exists_ok_of_any h
  obtain ⟨plain, h⟩ := Bool.and_eq_true_iff.1 h
  obtain ⟨t, there, indexed⟩ := (Option.any_eq_true _ _).1 h
  refine ⟨s, s', t, compiled, bare, there, fun kept => ?_⟩
  rw [kept] at plain
  cases t.settings.index <;> simp_all

/-! ### The identifier -/

/-- Whether a schema has an identifier, as a field or a group. -/
def HasId (s : Schema δ) : Prop := Table.contains s.fields "_id" = true ∨ "_id" ∈ s.groups

def HasBelowId (s : Schema δ) : Prop :=
  ∃ path, Table.contains s.fields path = true ∧ Path.isBelow "_id" path = true

section

omit [Document δ]

theorem virtuals_register (s : Schema δ) (e : TypedEntry δ) :
    (s.register e).1.virtuals = s.virtuals := by
  cases e with
  | missing path => rfl
  | missingItem path => rfl
  | group path =>
    rw [register]
    split <;> rfl
  | field path d type =>
    rw [register, declareAs]
    cases placed : s.place path d with
    | error e => rfl
    | ok bound =>
      obtain ⟨-, -, tree, -, rfl⟩ := place_ok placed
      cases type with
      | error e => rfl
      | ok t => exact adopt_virtuals _ path t

theorem virtuals_registerAll (s : Schema δ) (es : List (TypedEntry δ)) :
    (s.registerAll es).1.virtuals = s.virtuals :=
  registerAll_keeps virtuals_register s es

theorem segments_id : Path.segments "_id" = ["_id"] := by decide

/-- A branch in the place of the identifier leads to a field below it. -/
theorem hasBelowId_iff [Document δ] (h : Mirrors o (fun _ => True) s)
    (noVirtual : s.virtuals = []) :
    s.HasBelowId ↔ ∃ children, Tree.get? ["_id"] s.tree = some (.branch children) := by
  constructor
  · rintro ⟨path, field, below⟩
    obtain ⟨rest, given, parts⟩ := Path.isBelow_iff_segments.1 below
    obtain ⟨d, node⟩ := h.coherent.field_node field
    rw [parts, segments_id] at node
    exact Tree.branch_of_get?_append (by simp) given node
  · rintro ⟨children, branch⟩
    obtain ⟨names, leaf, given, found, isLeaf⟩ := (h.sound.get? branch).exists_leaf children rfl
    have node : Tree.get? (["_id"] ++ names) s.tree = some leaf := by
      rw [Tree.get?_append ["_id"] names s.tree (by simp) given, branch]
      exact found
    cases leaf with
    | branch inner => cases isLeaf
    | virtual =>
      obtain ⟨path, known, -⟩ := h.coherent.virtual_node.1 node
      rw [noVirtual] at known
      cases known
    | field d =>
      obtain ⟨-, path, t, parts, there, -⟩ := h.node node
      refine ⟨path, (Table.contains_iff_get? _ _).2 ⟨t, there⟩, ?_⟩
      exact Path.isBelow_iff_segments.2 ⟨names, given, by rw [parts, segments_id]⟩

end

/-- A free place for the identifier is one without fields below it. -/
theorem place_id_ok (h : Mirrors o (fun _ => True) s) (noVirtual : s.virtuals = [])
    (noGroup : "_id" ∉ s.groups) (d : Definition δ) :
    (∃ bound, s.place "_id" d = .ok bound) ↔ ¬ s.HasBelowId := by
  have allowed : Path.isReserved "_id" = false := by decide
  rw [hasBelowId_iff h noVirtual]
  constructor
  · rintro ⟨bound, placed⟩ ⟨children, branch⟩
    obtain ⟨-, free, -⟩ := place_ok placed
    rw [← segments_id] at branch
    obtain ⟨d', isField⟩ := (not_taken free).2.2 _ branch
    cases isField
  · intro noBranch
    have free : s.isTaken "_id" = false := by
      unfold isTaken
      rw [noVirtual, segments_id]
      cases node : Tree.get? ["_id"] s.tree with
      | none => simpa [Table.contains] using noGroup
      | some x =>
        cases x with
        | branch children => exact absurd ⟨children, node⟩ noBranch
        | field d => simpa [Table.contains] using noGroup
        | virtual =>
          obtain ⟨path, known, -⟩ := h.coherent.virtual_node.1 node
          rw [noVirtual] at known
          cases known
    rw [place, allowed, free, segments_id]
    exact ⟨_, rfl⟩

/-- The definition of the identifier has a type, unless its type would stand under the key of its
setting. -/
theorem typeAt_idDefinition_ok (o : Options) :
    (∃ t, (idDefinition o.typeKey : Definition δ).typeAt o "_id" = .ok t) ↔ o.typeKey ≠ "auto" := by
  rw [← plainTypeAt_idDefinition]
  by_cases auto : o.typeKey = "auto"
  · -- the type is overwritten by the setting, and `true` is no type
    have shape : shape o.typeKey "_id" ((idDefinition o.typeKey : Definition δ).record o.typeKey) =
        .error (unknownType "true" "_id") := by
      rw [auto]
      rfl
    rw [plainTypeAt, shape]
    refine ⟨?_, fun other => absurd auto other⟩
    rintro ⟨t, typed⟩
    cases typed
  · have stated : statedType? [(o.typeKey, (Definition.type (.scalar .objectId) : Definition δ)),
        ("auto", .literal (.bool true))] o.typeKey = some (.type (.scalar .objectId)) :=
      statedType?_of_get? (by simp [Table.get?]) rfl
    have shape : shape o.typeKey "_id" ((idDefinition o.typeKey : Definition δ).record o.typeKey) =
        .ok (.plain (.scalar .objectId)) := by
      simp only [idDefinition, Table.insert, auto, if_false, record, unwrapped, stated,
        Definition.shape]
      rfl
    rw [plainTypeAt, shape]
    exact ⟨fun _ => auto, fun _ => ⟨_, rfl⟩⟩

theorem addIdField_ok (h : Mirrors o (fun _ => True) s) (noVirtual : s.virtuals = []) :
    (∃ s', s.addIdField = (s', .ok ())) ↔
      (o.idField = true → s.HasId ∨ (o.typeKey ≠ "auto" ∧ ¬ s.HasBelowId)) := by
  have lacks : s.lacksId = true ↔ o.idField = true ∧ ¬ s.HasId := by
    simp [lacksId, HasId, h.options, and_assoc]
  rw [addIdField_eq]
  by_cases missing : s.lacksId = true
  · obtain ⟨wanted, without⟩ := lacks.1 missing
    obtain ⟨noField, noGroup⟩ := not_or.1 without
    have registers (d : Definition δ) (type : Except SchemaError (FieldType δ)) :
        (∃ s', s.register (.field "_id" d type) = (s', .ok ())) ↔
          (∃ t, type = .ok t) ∧ ∃ bound, s.place "_id" d = .ok bound := by
      simp only [register_field_ok]
      constructor
      · rintro ⟨s', bound, t, placed, typed, -⟩
        exact ⟨⟨t, typed⟩, bound, placed⟩
      · rintro ⟨⟨t, typed⟩, bound, placed⟩
        exact ⟨_, bound, t, placed, typed, rfl⟩
    rw [if_pos missing, registers, place_id_ok h noVirtual noGroup, h.options,
      typeAt_idDefinition_ok]
    simp [wanted, without]
  · rw [if_neg missing]
    have fine : o.idField = true → s.HasId := by
      intro wanted
      by_contra without
      exact missing (lacks.2 ⟨wanted, without⟩)
    exact ⟨fun _ wanted => .inl (fine wanted), fun _ => ⟨s, rfl⟩⟩

theorem virtuals_addIdField (run : s.addIdField = (s', .ok ())) : s'.virtuals = s.virtuals := by
  rw [addIdField_eq] at run
  split at run
  · have kept := virtuals_register s (.field "_id" (idDefinition s.options.typeKey)
      ((idDefinition s.options.typeKey).typeAt s.options "_id"))
    rwa [run] at kept
  · cases run
    rfl

/-- Before the identifier is shown there is no virtual. -/
theorem no_virtual {es : List (TypedEntry δ)} {s₁ s₂ : Schema δ}
    (declared : (empty o).registerAll es = (s₁, .ok ()))
    (identified : s₁.addIdField = (s₂, .ok ())) : s₂.virtuals = [] := by
  have kept := virtuals_registerAll (empty o) es
  rw [declared] at kept
  exact (virtuals_addIdField identified).trans kept

omit [Document δ] in
/-- The virtual of the identifier never fails where there is no virtual yet. -/
theorem addIdVirtual_ok (noVirtual : s.virtuals = []) : ∃ s', s.addIdVirtual = (s', .ok ()) := by
  have one : Path.segments "id" = ["id"] := by decide
  unfold addIdVirtual extendVirtual Schema.virtual
  rw [noVirtual, one]
  split
  · next wanted =>
    have free : Table.get? s.tree "id" = none :=
      Option.isNone_iff_eq_none.1 (Bool.and_eq_true_iff.1 wanted).2
    have inserted : Tree.insertVirtual ["id"] s.tree =
        .ok (Table.insert s.tree "id" .virtual) := by
      simp [Tree.insertVirtual, Tree.changeAt, free]
    rw [inserted]
    exact ⟨_, rfl⟩
  · exact ⟨s, rfl⟩

/-- A schema that compiles without identifiers compiles with them, exactly if an identifier is not
asked for or is there already, or else its definition has a type and its place is free. -/
theorem compile_identified_iff {d : Definition δ} (untimed : o.timestamps = .disabled)
    (bare : compile o.bare d = .ok s') :
    (∃ s, compile o d = .ok s) ↔
      (o.idField = true → s'.HasId ∨ (o.typeKey ≠ "auto" ∧ ¬ s'.HasBelowId)) := by
  obtain ⟨es, same⟩ := exists_entries bare
  rw [(same o.bare rfl).1] at bare
  obtain ⟨compiled, faithful⟩ := same o rfl
  rw [compiled]
  obtain ⟨s₁, declared, rfl⟩ := (assemble_bare o).1 bare
  have mirrors : Mirrors o (fun _ => True) s₁ := Mirrors.registerAll (.empty o) faithful declared
  have noVirtual : s₁.virtuals = [] := by
    have kept := virtuals_registerAll (empty o) es
    rwa [declared] at kept
  show _ ↔ (o.idField = true → s₁.HasId ∨ (o.typeKey ≠ "auto" ∧ ¬ s₁.HasBelowId))
  rw [← addIdField_ok mirrors noVirtual]
  constructor
  · rintro ⟨s, assembled⟩
    obtain ⟨_, s₂, -, -, declared', identified, -⟩ := assemble_ok.1 assembled
    cases declared.symm.trans declared'
    exact ⟨s₂, identified⟩
  · rintro ⟨s₂, identified⟩
    have noVirtual₂ : s₂.virtuals = [] := by rw [virtuals_addIdField identified, noVirtual]
    obtain ⟨s₃, shown⟩ := addIdVirtual_ok noVirtual₂
    have options : s₃.addBuiltIn.options = o :=
      calc s₃.options = s₂.options := (showsId_addIdVirtual shown).options
        _ = s₁.options := options_addIdField identified
        _ = o := options_registerAll declared
    have stamped : s₃.addBuiltIn.addStampFields = (s₃.addBuiltIn, .ok ()) := by
      rw [addStampFields, options, untimed]
      rfl
    exact ⟨_, assemble_ok.2 ⟨s₁, s₂, s₃, _, declared, identified, shown, stamped, rfl⟩⟩

def namedDefinition : Definition MemoryDocument := .object [("name", .literal (.str "String"))]

theorem compile_identified_iff_name : ∃ s' : Schema MemoryDocument,
    compile ({} : Options).bare namedDefinition = .ok s' ∧
      (∃ s : Schema MemoryDocument, compile {} namedDefinition = .ok s) ∧ ¬ s'.HasId ∧
        ¬ s'.HasBelowId := by
  have h : ((compile ({} : Options).bare namedDefinition).toOption.any fun s' =>
      !Table.contains s'.fields "_id" && !s'.groups.contains "_id" &&
        s'.fields.all fun e => !Path.isBelow "_id" e.1) = true := by
    decide +kernel
  obtain ⟨s', bare, h⟩ := exists_ok_of_any h
  simp only [Bool.and_eq_true, Bool.not_eq_true', List.all_eq_true] at h
  obtain ⟨⟨noField, noGroup⟩, apart⟩ := h
  have noId : ¬ s'.HasId := by
    rintro (field | group)
    · cases noField.symm.trans field
    · cases noGroup.symm.trans (List.contains_iff_mem.2 group)
  have notBelow : ¬ s'.HasBelowId := by
    rintro ⟨path, known, below⟩
    obtain ⟨t, there⟩ := (Table.contains_iff_get? _ _).1 known
    cases (apart _ (Table.mem_of_get? there)).symm.trans below
  have compiles := (compile_identified_iff rfl bare).2 fun _ => .inr ⟨by decide, notBelow⟩
  exact ⟨s', bare, compiles, noId, notBelow⟩

/-- A name that has a dot and leads below the identifier. -/
def dottedDefinition : Definition MemoryDocument := .object [("_id.x", .literal (.str "String"))]

/-- Without identifiers two definitions compile that do not compile with them: one where the type
stands under the name of a setting, and one with a name that leads below the identifier. -/
theorem identifier_refused :
    (∃ s' : Schema MemoryDocument,
      compile { ({} : Options).bare with typeKey := "auto" } namedDefinition = .ok s' ∧
        compile { ({} : Options) with typeKey := "auto" } namedDefinition =
          .error (.unknownType "True" "_id")) ∧
    ∃ s' : Schema MemoryDocument, compile ({} : Options).bare dottedDefinition = .ok s' ∧
      compile {} dottedDefinition = .error (.conflictingPath "_id" "_id" "a nested path") := by
  obtain ⟨named, compiled, -⟩ := exists_ok_of_any (p := fun _ => true)
    (x := compile { ({} : Options).bare with typeKey := "auto" } namedDefinition)
    (by decide +kernel)
  obtain ⟨dotted, compiled', -⟩ := exists_ok_of_any (p := fun _ => true)
    (x := compile ({} : Options).bare dottedDefinition) (by decide +kernel)
  exact ⟨⟨named, compiled, eq_error_of_failsWith (by decide +kernel)⟩, dotted, compiled',
    eq_error_of_failsWith (by decide +kernel)⟩

end Schema

end DocSchema
