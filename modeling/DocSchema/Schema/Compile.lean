import DocSchema.Schema.Registration

/-!
# Compiling definitions

`Definition.typeAt` resolves the type of a field, `compile` turns a definition into a schema. The
two need each other, since the elements of an array may be written as a group of fields, which is
compiled on its own. The mutual recursion is cut by `assemble`, which builds a schema from entries
whose types are already resolved: `typeAt` resolves the entries of the group itself, which are
smaller than the definition it started from.

A schema is assembled in a fixed order: the declared entries, the identifier field, the virtual that
shows it, the built-in hooks, and the times of creation and update.
-/

namespace DocSchema

variable {δ : Type}

/-! ## The shape of a type -/

/-- What kind of field a definition makes, before the elements of an array are looked at. -/
inductive Shape (δ : Type) where
  | plain (kind : FieldKind δ)
  | anyArray
  | arrayOf (element : Definition δ)

namespace Shape

/-- An array of elements that may not be given. -/
def ofElement? : Option (Definition δ) → Shape δ
  | some d => if d.isUnset then .anyArray else .arrayOf d
  | none => .anyArray

/-- The shape of a named type. The elements of a named array are given beside it. -/
def ofTypeName (cast : Option (Definition δ)) : TypeName → Shape δ
  | .scalar s => .plain (.scalar s)
  | .mixed => .plain .mixed
  | .array => ofElement? cast

end Shape

def unknownType (name path : String) : SchemaError := .unknownType (capitalized name) path

namespace Definition

/-- What a record says about the elements of a named array. -/
def statedElement? (record : Table (Definition δ)) : Option (Definition δ) :=
  Table.get? record "cast"

/-- The shape of a record, by what it holds under the type key. -/
def shape (typeKey path : String) (record : Table (Definition δ)) :
    Except SchemaError (Shape δ) :=
  match statedType? record typeKey with
  | none => .ok (.plain .mixed)
  | some (.object _) => .ok (.plain .mixed)
  | some (.array items) => .ok (Shape.ofElement? items.head?)
  | some (.schema s) => .ok (.plain (.embedded s))
  | some (.type t) => .ok (Shape.ofTypeName (statedElement? record) t)
  | some (.literal (.str name)) =>
    if name = "mixed" then .ok (.plain .mixed)
    else
      match TypeName.ofName? name with
      | some t => .ok (Shape.ofTypeName (statedElement? record) t)
      | none => .error (unknownType name path)
  | some (.literal v) => .error (unknownType v.text path)

/-- The field that a definition makes, once its kind is known. -/
def fieldAt (typeKey path : String) (d : Definition δ) (kind : FieldKind δ) : FieldType δ where
  path := path
  kind := kind
  settings := Settings.ofRecord (d.record typeKey) typeKey kind.scalar?

/-- The elements of an array of anything. -/
def anything (path : String) : FieldType δ := { path, kind := .mixed, settings := {} }

theorem sizeOf_lt_of_get? {record : Table (Definition δ)} {key : String} {d : Definition δ}
    (h : Table.get? record key = some d) : sizeOf d < sizeOf record := by
  induction record with
  | nil => simp at h
  | cons e t ih =>
    obtain ⟨k, b⟩ := e
    simp only [Table.get?] at h
    split at h
    · simp only [Option.some.injEq] at h
      subst h
      simp only [List.cons.sizeOf_spec, Prod.mk.sizeOf_spec]
      omega
    · have := ih h
      simp only [List.cons.sizeOf_spec]
      omega

theorem get?_of_statedType? {record : Table (Definition δ)} {typeKey : String} {d : Definition δ}
    (h : statedType? record typeKey = some d) : Table.get? record typeKey = some d := by
  unfold statedType? at h
  exact (Option.filter_eq_some_iff.1 h).1

theorem ofElement?_eq_arrayOf {o : Option (Definition δ)} {x : Definition δ}
    (h : Shape.ofElement? o = .arrayOf x) : o = some x := by
  unfold Shape.ofElement? at h
  split at h
  · split at h <;> cases h
    rfl
  · cases h

theorem ofTypeName_eq_arrayOf {cast : Option (Definition δ)} {t : TypeName} {x : Definition δ}
    (h : Shape.ofTypeName cast t = .arrayOf x) : t = .array ∧ cast = some x := by
  cases t with
  | scalar s => cases h
  | mixed => cases h
  | array => exact ⟨rfl, ofElement?_eq_arrayOf h⟩

/-- Whether a definition is the bare name of an array. -/
def namesArray : Definition δ → Bool
  | .type t => t = .array
  | .literal (.str name) => TypeName.ofName? name = some .array
  | _ => false

/-- Whether the type of a definition is resolved by resolving the same type again. Where `cast` is
the type key, the name of an array stands in the place that its elements are read from, so they are
such arrays as well. -/
def isCircular (typeKey : String) (d : Definition δ) : Bool := typeKey = "cast" && d.namesArray

theorem isCircular_iff {typeKey : String} {d : Definition δ} :
    d.isCircular typeKey = true ↔ typeKey = "cast" ∧ d.namesArray = true := by
  simp [isCircular]

theorem isCircular_of_ne {typeKey : String} (other : typeKey ≠ "cast") (d : Definition δ) :
    d.isCircular typeKey = false := by
  simp [isCircular, other]

theorem isCircular_object (typeKey : String) (fields : List (String × Definition δ)) :
    isCircular typeKey (.object fields : Definition δ) = false := by
  simp [isCircular, namesArray]

/-- The element of an array is the first item of what stands under the type key, or what the record
says about the elements of a named array. -/
theorem shape_eq_arrayOf {typeKey path : String} {record : Table (Definition δ)}
    {x : Definition δ} (h : shape typeKey path record = .ok (.arrayOf x)) :
    (∃ items, statedType? record typeKey = some (.array items) ∧ x ∈ items) ∨
      ∃ named, statedType? record typeKey = some named ∧ named.namesArray = true ∧
        statedElement? record = some x := by
  unfold shape at h
  split at h
  · cases h
  · cases h
  · next items ht =>
    have hi := ofElement?_eq_arrayOf (Except.ok.inj h)
    exact .inl ⟨items, ht, List.mem_of_mem_head? (by rw [hi]; rfl)⟩
  · cases h
  · next t ht =>
    obtain ⟨rfl, hc⟩ := ofTypeName_eq_arrayOf (Except.ok.inj h)
    exact .inr ⟨_, ht, rfl, hc⟩
  · next name ht =>
    split at h
    · cases h
    · split at h
      · next t hn =>
        obtain ⟨rfl, hc⟩ := ofTypeName_eq_arrayOf (Except.ok.inj h)
        exact .inr ⟨_, ht, decide_eq_true hn, hc⟩
      · cases h
  · cases h

/-- The element of an array is smaller than the record that declares it. -/
theorem sizeOf_lt_of_shape {typeKey path : String} {record : Table (Definition δ)}
    {x : Definition δ} (h : shape typeKey path record = .ok (.arrayOf x)) :
    sizeOf x < sizeOf record := by
  rcases shape_eq_arrayOf h with ⟨items, ht, hx⟩ | ⟨-, -, -, hc⟩
  · have h1 := List.sizeOf_lt_of_mem hx
    have h2 := sizeOf_lt_of_get? (get?_of_statedType? ht)
    simp only [array.sizeOf_spec] at h2
    omega
  · exact sizeOf_lt_of_get? hc

theorem sizeOf_unwrapped_le (typeKey : String) (fields : Table (Definition δ)) :
    sizeOf (unwrapped typeKey fields) ≤ sizeOf fields := by
  unfold unwrapped
  split
  · next inner hi =>
    split
    · exact Nat.le_refl _
    · have := sizeOf_lt_of_get? (get?_of_statedType? hi)
      simp only [object.sizeOf_spec] at this
      omega
  · exact Nat.le_refl _

/-- The element of an array that stands for its own type is one of its items, or the array is named
and its own element. -/
theorem shape_self_eq_arrayOf {typeKey path : String} {d x : Definition δ}
    (h : shape typeKey path [(typeKey, d)] = .ok (.arrayOf x)) :
    x = d ∧ x.isCircular typeKey = true ∨ sizeOf x < sizeOf d := by
  rcases shape_eq_arrayOf h with ⟨items, ht, hx⟩ | ⟨named, ht, array, hc⟩
  · have hd : d = .array items := by simpa [Table.get?] using get?_of_statedType? ht
    have := List.sizeOf_lt_of_mem hx
    subst hd
    simp only [array.sizeOf_spec]
    omega
  · have hd : d = named := by simpa [Table.get?] using get?_of_statedType? ht
    subst hd
    by_cases hk : typeKey = "cast"
    · have hx : d = x := by simpa [statedElement?, Table.get?, hk] using hc
      subst hx
      exact .inl ⟨rfl, isCircular_iff.2 ⟨hk, array⟩⟩
    · simp [statedElement?, Table.get?, hk] at hc

/-- The element of an array is smaller than the definition that declares it, but for an array that
is its own element. -/
theorem sizeOf_lt_of_shape_record {typeKey path : String} {d x : Definition δ}
    (h : shape typeKey path (d.record typeKey) = .ok (.arrayOf x))
    (ends : x.isCircular typeKey = false) : sizeOf x < sizeOf d := by
  have self (h : shape typeKey path [(typeKey, d)] = .ok (.arrayOf x)) : sizeOf x < sizeOf d := by
    rcases shape_self_eq_arrayOf h with ⟨-, circular⟩ | smaller
    · rw [ends] at circular
      cases circular
    · exact smaller
  cases d with
  | object fields =>
    have h1 := sizeOf_lt_of_shape h
    have h2 := sizeOf_unwrapped_le typeKey fields
    simp only [record] at h1
    simp only [object.sizeOf_spec]
    omega
  | array items => exact self h
  | type t => exact self h
  | schema s => exact self h
  | literal v => exact self h

/-- Where the name of an array is circular, the array is of such arrays. -/
theorem shape_of_isCircular {typeKey : String} {record : Table (Definition δ)}
    {named : Definition δ} (h : named.isCircular typeKey = true)
    (stated : statedType? record typeKey = some named) (path : String) :
    shape typeKey path record = .ok (.arrayOf named) := by
  obtain ⟨rfl, array⟩ := isCircular_iff.1 h
  have element : statedElement? record = some named := get?_of_statedType? stated
  rw [shape, stated]
  cases named with
  | object fields => cases array
  | array items => cases array
  | schema s => cases array
  | type t =>
    obtain rfl : t = .array := of_decide_eq_true array
    rw [element]
    rfl
  | literal v =>
    cases v with
    | str name =>
      have known : TypeName.ofName? name = some .array := of_decide_eq_true array
      have other : name ≠ "mixed" := by
        rintro rfl
        cases known
      simp only [other, if_false, known, element]
      rfl
    | _ => cases array

/-- A circular definition is its own element. -/
theorem shape_self_of_isCircular {typeKey : String} {d : Definition δ}
    (h : d.isCircular typeKey = true) (path : String) :
    shape typeKey path (d.record typeKey) = .ok (.arrayOf d) := by
  have array := (isCircular_iff.1 h).2
  apply shape_of_isCircular h
  cases d with
  | object fields => cases array
  | array items => cases array
  | schema s => cases array
  | type t => simp [record, statedType?, Table.get?, isUnset]
  | literal v =>
    cases v with
    | str name => simp [record, statedType?, Table.get?, isUnset]
    | _ => cases array

/-- The type of a definition that makes no array. -/
def plainTypeAt (typeKey path : String) (d : Definition δ) : Except SchemaError (FieldType δ) :=
  match shape typeKey path (d.record typeKey) with
  | .error e => .error e
  | .ok (.plain kind) => .ok (d.fieldAt typeKey path kind)
  | .ok _ => .ok (d.fieldAt typeKey path .mixed)

end Definition

/-! ## Assembling a schema -/

namespace Schema

def empty (o : Options) : Schema δ := { options := o }

def idDefinition (typeKey : String) : Definition δ :=
  .object (Table.insert [(typeKey, .type (.scalar .objectId))] "auto" (.literal (.bool true)))

/-- The getter of the virtual that shows the identifier as a text. -/
def idText : Getter := fun _ doc =>
  match doc.field? "_id" with
  | none => .null
  | some .null => .null
  | some (.str id) => .str id
  | some v => .str v.text

/-- Add the identifier field, unless it is declared or turned off. -/
def addIdField (s : Schema δ) : Schema δ × Except SchemaError Unit :=
  let d := idDefinition s.options.typeKey
  if s.options.idField && !Table.contains s.fields "_id" && !s.groups.contains "_id" then
    s.register (.field "_id" d (d.plainTypeAt s.options.typeKey "_id"))
  else (s, .ok ())

/-- Add the virtual that shows the identifier, unless its name is bound or it is turned off. -/
def addIdVirtual (s : Schema δ) : Schema δ × Except SchemaError Unit :=
  if s.options.idVirtual && (Tree.get? ["id"] s.tree).isNone then
    match s.extendVirtual "id" [] [idText] [] with
    | (s, .ok _) => (s, .ok ())
    | (s, .error e) => (s, .error e)
  else (s, .ok ())

def dateEntry (typeKey path : String) : TypedEntry δ :=
  .field path (.type (.scalar .date)) (Definition.plainTypeAt typeKey path (.type (.scalar .date)))

/-- The fields that timestamps add: the time of the last update, and the time of creation unless
such a field is declared. -/
def stampPaths (s : Schema δ) (created updated : String) : List String :=
  if Table.contains s.fields created then [updated] else addName [updated] created

def addStampFields (s : Schema δ) : Schema δ × Except SchemaError Unit :=
  match s.options.timestamps.fields? with
  | none => (s, .ok ())
  | some (created, updated) =>
    s.registerAll ((s.stampPaths created updated).map (dateEntry s.options.typeKey))

def addStampHook [Document δ] (s : Schema δ) : Schema δ :=
  match s.options.timestamps.fields? with
  | none => s
  | some (created, updated) =>
    { s with hooks := s.hooks ++ [.pre "save" (PreHook.stamp created updated)] }

def addBuiltIn [Document δ] (s : Schema δ) : Schema δ :=
  { s with hooks := s.hooks ++ PreHook.builtIn }

/-- Build a schema from resolved entries. -/
def assemble [Document δ] (o : Options) (entries : List (TypedEntry δ)) :
    Except SchemaError (Schema δ) :=
  match (empty o).registerAll entries with
  | (_, .error e) => .error e
  | (s, .ok _) =>
    match s.addIdField with
    | (_, .error e) => .error e
    | (s, .ok _) =>
      match s.addIdVirtual with
      | (_, .error e) => .error e
      | (s, .ok _) =>
        match s.addBuiltIn.addStampFields with
        | (_, .error e) => .error e
        | (s, .ok _) => .ok s.addStampHook

end Schema

/-! ## Resolving types -/

namespace Definition

/-- Whether the elements of an array are written as a group of fields. -/
def isInline (typeKey : String) : Definition δ → Bool
  | .object fields => !fields.isEmpty && isGroup fields typeKey
  | _ => false

variable [Document δ]

/-- The compiled field that a definition makes at a path. The element of an array is resolved at the
same path, so an array that is its own element is never done with. -/
def typeAt (o : Options) (path : String) (d : Definition δ) : Except SchemaError (FieldType δ) :=
  match h : shape o.typeKey path (d.record o.typeKey) with
  | .error e => .error e
  | .ok (.plain kind) => .ok (d.fieldAt o.typeKey path kind)
  | .ok .anyArray => .ok (d.fieldAt o.typeKey path (.array (anything path)))
  | .ok (.arrayOf (.schema s)) => .ok (d.fieldAt o.typeKey path (.documents s))
  | .ok (.arrayOf (.object fields)) =>
    if isInline o.typeKey (.object fields : Definition δ) then
      let typed := (entries o.typeKey "" fields).attach.map fun
        | ⟨.missing p, _⟩ => .missing p
        | ⟨.missingItem p, _⟩ => .missingItem p
        | ⟨.group p, _⟩ => .group p
        | ⟨.field p x _, hx⟩ =>
          have : sizeOf x < sizeOf d := by
            have h1 := sizeOf_lt_of_shape_record h (isCircular_object o.typeKey fields)
            have h2 := sizeOf_lt_of_mem_entries fields hx
            simp only [object.sizeOf_spec] at h1
            omega
          .field p x (typeAt o.forChild p x)
      match Schema.assemble o.forChild typed with
      | .error e => .error e
      | .ok s => .ok (d.fieldAt o.typeKey path (.documents s))
    else
      have := sizeOf_lt_of_shape_record h (isCircular_object o.typeKey fields)
      match typeAt o path (.object fields) with
      | .error e => .error e
      | .ok t => .ok (d.fieldAt o.typeKey path (.array t))
  | .ok (.arrayOf x) =>
    if circular : x.isCircular o.typeKey then .error (.endless path)
    else
      have := sizeOf_lt_of_shape_record h (by simpa using circular)
      match typeAt o path x with
      | .error e => .error e
      | .ok t => .ok (d.fieldAt o.typeKey path (.array t))
termination_by sizeOf d
decreasing_by all_goals assumption

end Definition

namespace Schema

variable [Document δ]

/-- Compile a definition: an object, or a missing one for a schema without fields of its own. -/
def compile (o : Options) : Definition δ → Except SchemaError (Schema δ)
  | .object fields =>
    assemble o ((Definition.entries o.typeKey "" fields).map
      (Entry.withType fun p x => x.typeAt o p))
  | .literal .null => assemble o []
  | _ => .error (.invalidPath "" false)

def declare (s : Schema δ) (path : String) (d : Definition δ) :
    Schema δ × Except SchemaError (FieldType δ) :=
  s.declareAs path d (d.typeAt s.options path)

/-- Declare the fields of an object, each path starting with the same text. -/
def add (s : Schema δ) (d : Definition δ) (front : String) : Schema δ × Except SchemaError Unit :=
  match d with
  | .object fields =>
    s.registerAll ((Definition.entries s.options.typeKey front fields).map
      (Entry.withType fun p x => x.typeAt s.options p))
  | _ => (s, .error (.invalidPath (Path.trimDots front) false))

end Schema

namespace Definition

variable [Document δ]

/-- The kind of an array, by its elements: documents of a sub-schema, which may be written inline as
a group of fields, or values of one type. -/
def arrayKind (o : Options) (path : String) (element : Definition δ) :
    Except SchemaError (FieldKind δ) :=
  match element with
  | .schema s => .ok (.documents s)
  | x =>
    if isInline o.typeKey x then (Schema.compile o.forChild x).map .documents
    else (typeAt o path x).map .array

/-- A circular definition is its own element, and so is that one. -/
theorem typeAt_of_isCircular {o : Options} {d : Definition δ}
    (h : d.isCircular o.typeKey = true) (path : String) :
    typeAt o path d = .error (.endless path) := by
  have named : d.namesArray = true := (isCircular_iff.1 h).2
  have element {x : Shape δ} (run : shape o.typeKey path (d.record o.typeKey) = .ok x) :
      x = .arrayOf d :=
    Except.ok.inj (run.symm.trans (shape_self_of_isCircular h path))
  rw [typeAt]
  split
  · next run => cases run.symm.trans (shape_self_of_isCircular h path)
  · next run => cases element run
  · next run => cases element run
  · next run =>
    cases element run
    cases named
  · next run =>
    cases element run
    cases named
  · next run =>
    cases element run
    exact dif_pos h

/-- The type of a definition by its shape, with `arrayKind` for the elements of an array. -/
theorem typeAt_eq (o : Options) (path : String) (d : Definition δ) :
    typeAt o path d =
      match shape o.typeKey path (d.record o.typeKey) with
      | .error e => .error e
      | .ok (.plain kind) => .ok (d.fieldAt o.typeKey path kind)
      | .ok .anyArray => .ok (d.fieldAt o.typeKey path (.array (anything path)))
      | .ok (.arrayOf x) => (arrayKind o path x).map (d.fieldAt o.typeKey path) := by
  have typed : ∀ fields : List (String × Definition δ),
      ((entries o.typeKey "" fields).attach.map fun
        | ⟨.missing p, _⟩ => .missing p
        | ⟨.missingItem p, _⟩ => .missingItem p
        | ⟨.group p, _⟩ => .group p
        | ⟨.field p x _, _⟩ => .field p x (typeAt o.forChild p x)) =
      (entries o.forChild.typeKey "" fields).map
        (Entry.withType fun p x => typeAt o.forChild p x) := by
    intro fields
    have pointwise := List.map_congr_left (l := (entries o.typeKey "" fields).attach)
      (f := fun
        | ⟨.missing p, _⟩ => .missing p
        | ⟨.missingItem p, _⟩ => .missingItem p
        | ⟨.group p, _⟩ => .group p
        | ⟨.field p x _, _⟩ => .field p x (typeAt o.forChild p x))
      (g := fun e => Entry.withType (fun p x => typeAt o.forChild p x) e.1)
      (by rintro ⟨e, he⟩ -; cases e <;> rfl)
    exact pointwise.trans (by simp [Options.forChild])
  rw [typeAt]
  split
  · next h => rw [h]
  · next h => rw [h]
  · next h => rw [h]
  · next h => rw [h]; rfl
  · next fields h =>
    conv => rhs; rw [h]
    simp only [arrayKind, typed]
    split
    · simp only [Schema.compile]
      split <;> simp_all [Except.map]
    · cases typeAt o path (.object fields) <;> rfl
  · next x hs ho h =>
    conv => rhs; rw [h]
    have kind : arrayKind o path x = (typeAt o path x).map .array := by
      cases x with
      | schema s => exact absurd rfl (hs s)
      | object fields => exact absurd rfl (ho fields)
      | type t => rfl
      | array items => rfl
      | literal v => rfl
    simp only [kind]
    split
    · next circular => rw [typeAt_of_isCircular circular]; rfl
    · cases typeAt o path x <;> rfl

theorem arrayKind_of_isCircular {o : Options} {x : Definition δ}
    (h : x.isCircular o.typeKey = true) (path : String) :
    arrayKind o path x = .error (.endless path) := by
  have named : x.namesArray = true := (isCircular_iff.1 h).2
  have single : isInline o.typeKey x = false ∧ ∀ s, x ≠ .schema s := by
    cases x with
    | object fields => cases named
    | schema s => cases named
    | _ => exact ⟨rfl, nofun⟩
  rw [arrayKind, single.1, typeAt_of_isCircular h]
  · rfl
  · exact fun s same => single.2 s same

/-- The element of an array that is resolved is smaller than the definition that declares it. -/
theorem sizeOf_lt_of_arrayKind {o : Options} {path : String} {d x : Definition δ}
    {kind : FieldKind δ} (h : shape o.typeKey path (d.record o.typeKey) = .ok (.arrayOf x))
    (resolved : arrayKind o path x = .ok kind) : sizeOf x < sizeOf d := by
  apply sizeOf_lt_of_shape_record h
  rw [Bool.eq_false_iff]
  intro circular
  cases (arrayKind_of_isCircular circular path).symm.trans resolved

end Definition

end DocSchema
