import DocSchema.Proofs.Table.Keys
import DocSchema.Schema.Call

/-!
# The schemas inside definitions and types

A definition may hold compiled schemas, and a compiled field may hold the schemas of its documents.
The schemas of a field come from two places only (`schemas_typeAt`): from the definition, which held
them already compiled, or from a group of fields written inline as the element of an array, which
was compiled on its own with the options for children.
-/

namespace DocSchema

variable {δ : Type}

namespace Definition

mutual

/-- The compiled schemas that a definition holds. -/
def schemas : Definition δ → List (Schema δ)
  | .type _ => []
  | .schema s => [s]
  | .array items => itemSchemas items
  | .object fields => fieldSchemas fields
  | .literal _ => []

def itemSchemas : List (Definition δ) → List (Schema δ)
  | [] => []
  | d :: ds => schemas d ++ itemSchemas ds

def fieldSchemas : List (String × Definition δ) → List (Schema δ)
  | [] => []
  | (_, d) :: fs => schemas d ++ fieldSchemas fs

end

theorem mem_itemSchemas {items : List (Definition δ)} {c : Schema δ} :
    c ∈ itemSchemas items ↔ ∃ d ∈ items, c ∈ d.schemas := by
  induction items with
  | nil => simp [itemSchemas]
  | cons d ds ih => simp [itemSchemas, ih]

theorem mem_fieldSchemas {fields : List (String × Definition δ)} {c : Schema δ} :
    c ∈ fieldSchemas fields ↔ ∃ e ∈ fields, c ∈ e.2.schemas := by
  induction fields with
  | nil => simp [fieldSchemas]
  | cons e fs ih =>
    obtain ⟨k, d⟩ := e
    simp [fieldSchemas, ih]

/-- A definition that stands in a record holds no schema that the definition of the record does not
hold. -/
theorem schemas_of_mem_record {typeKey key : String} {d x : Definition δ}
    (h : (key, x) ∈ d.record typeKey) : ∀ c ∈ x.schemas, c ∈ d.schemas := by
  intro c hc
  have wrapped (hw : (key, x) ∈ [(typeKey, d)]) : c ∈ d.schemas := by
    obtain ⟨-, rfl⟩ := Prod.mk.inj (List.mem_singleton.1 hw)
    exact hc
  cases d with
  | type t => exact wrapped h
  | schema s => exact wrapped h
  | array items => exact wrapped h
  | literal v => exact wrapped h
  | object fields =>
    rw [record, unwrapped] at h
    rw [schemas, mem_fieldSchemas]
    split at h
    · next inner hi =>
      split at h
      · exact ⟨_, h, hc⟩
      · have hm := Table.mem_of_get? (get?_of_statedType? hi)
        exact ⟨_, hm, by rw [schemas, mem_fieldSchemas]; exact ⟨_, h, hc⟩⟩
    · exact ⟨_, h, hc⟩

/-- The element of an array holds no schema that its definition does not hold. -/
theorem schemas_of_shape {typeKey path : String} {d x : Definition δ}
    (h : shape typeKey path (d.record typeKey) = .ok (.arrayOf x)) :
    ∀ c ∈ x.schemas, c ∈ d.schemas := by
  intro c hc
  rcases shape_eq_arrayOf h with ⟨items, hi, hx⟩ | ⟨-, -, -, he⟩
  · have hm := Table.mem_of_get? (get?_of_statedType? hi)
    refine schemas_of_mem_record hm c ?_
    rw [schemas, mem_itemSchemas]
    exact ⟨x, hx, hc⟩
  · exact schemas_of_mem_record (Table.mem_of_get? he) c hc

mutual

/-- The definition of a field among the entries of a definition holds no other schemas. -/
theorem schemas_of_mem_entriesAt {typeKey path p : String} {x : Definition δ} {u : Unit} :
    ∀ d : Definition δ, Entry.field p x u ∈ entriesAt typeKey path d →
      ∀ c ∈ x.schemas, c ∈ d.schemas
  | .literal v, h => by
    cases v <;> simp_all [entriesAt]
  | .type t, h => by simp_all [entriesAt]
  | .schema s, h => by simp_all [entriesAt]
  | .array items, h => by
    unfold entriesAt at h
    split at h <;> simp_all
  | .object [], h => by simp_all [entriesAt]
  | .object (f :: fs), h => by
    rw [entriesAt] at h
    split at h
    · have h' : Entry.field p x u ∈ entries typeKey (path ++ ".") (f :: fs) := by simpa using h
      rw [schemas]
      exact schemas_of_mem_entries (f :: fs) h'
    · simp_all

/-- The definition of a field among the entries of an object holds no schema that its fields do not
hold. -/
theorem schemas_of_mem_entries {typeKey front p : String} {x : Definition δ} {u : Unit} :
    ∀ fields : List (String × Definition δ), Entry.field p x u ∈ entries typeKey front fields →
      ∀ c ∈ x.schemas, c ∈ fieldSchemas fields
  | [], h => by simp [entries] at h
  | (key, d) :: rest, h => by
    rw [entries, List.mem_append] at h
    intro c hc
    rw [fieldSchemas, List.mem_append]
    rcases h with h | h
    · exact .inl (schemas_of_mem_entriesAt d h c hc)
    · exact .inr (schemas_of_mem_entries rest h c hc)

end

end Definition

/-! ### The schemas of a compiled field -/

mutual

/-- The schemas that a kind of field holds, also as the elements of arrays. -/
def FieldKind.schemas : FieldKind δ → List (Schema δ)
  | .scalar _ => []
  | .mixed => []
  | .embedded s => [s]
  | .documents s => [s]
  | .array element => element.schemas
termination_by structural k => k

def FieldType.schemas : FieldType δ → List (Schema δ)
  | { path := _, kind := kind, settings := _ } => kind.schemas
termination_by structural t => t

end

theorem FieldType.schemas_eq (t : FieldType δ) : t.schemas = t.kind.schemas := by
  cases t
  rfl

theorem FieldType.mem_schemas_of_schema? {t : FieldType δ} {c : Schema δ}
    (h : t.schema? = some c) : c ∈ t.schemas := by
  rw [FieldType.schemas_eq]
  unfold FieldType.schema? at h
  split at h <;> simp_all [FieldKind.schemas]

mutual

theorem FieldKind.sizeOf_lt_of_mem_schemas {c : Schema δ} :
    ∀ k : FieldKind δ, c ∈ k.schemas → sizeOf c < sizeOf k
  | .scalar _, h => by simp [FieldKind.schemas] at h
  | .mixed, h => by simp [FieldKind.schemas] at h
  | .embedded s, h => by
    obtain rfl := List.mem_singleton.1 h
    simp
  | .documents s, h => by
    obtain rfl := List.mem_singleton.1 h
    simp
  | .array element, h => by
    have := FieldType.sizeOf_lt_of_mem_schemas element h
    simp only [FieldKind.array.sizeOf_spec]
    omega

/-- The schemas inside a field are smaller than the field. -/
theorem FieldType.sizeOf_lt_of_mem_schemas {c : Schema δ} :
    ∀ t : FieldType δ, c ∈ t.schemas → sizeOf c < sizeOf t
  | { path := _, kind := kind, settings := _ }, h => by
    have := FieldKind.sizeOf_lt_of_mem_schemas kind h
    simp only [FieldType.mk.sizeOf_spec]
    omega

end

theorem Schema.sizeOf_lt_of_mem_fields {s c : Schema δ} {e : String × FieldType δ}
    (he : e ∈ s.fields) (hc : c ∈ e.2.schemas) : sizeOf c < sizeOf s := by
  have h₁ := FieldType.sizeOf_lt_of_mem_schemas e.2 hc
  have h₂ := List.sizeOf_lt_of_mem he
  obtain ⟨path, t⟩ := e
  cases s
  simp only [Prod.mk.sizeOf_spec] at h₂
  simp only [Schema.mk.sizeOf_spec]
  dsimp only at h₁
  omega

/-- What holds of a schema as soon as it holds of the schemas inside its fields holds of all
schemas. -/
theorem Schema.induction_on_fields {P : Schema δ → Prop}
    (h : ∀ s : Schema δ, (∀ e ∈ s.fields, ∀ c ∈ e.2.schemas, P c) → P s) (s : Schema δ) : P s :=
  h s fun _ he c hc =>
    have := Schema.sizeOf_lt_of_mem_fields he hc
    Schema.induction_on_fields h c
termination_by sizeOf s

namespace Definition

/-- A kind that is no array holds the schema under the type key, if any. -/
theorem schemas_of_plain {typeKey path : String} {d : Definition δ} {kind : FieldKind δ}
    (h : shape typeKey path (d.record typeKey) = .ok (.plain kind)) :
    ∀ c ∈ kind.schemas, c ∈ d.schemas := by
  have named {cast : Option (Definition δ)} {t : TypeName}
      (ht : Shape.ofTypeName cast t = .plain kind) : kind.schemas = [] := by
    cases t with
    | scalar s => cases ht; rfl
    | mixed => cases ht; rfl
    | array =>
      simp only [Shape.ofTypeName, Shape.ofElement?] at ht
      split at ht
      · split at ht <;> cases ht
      · cases ht
  intro c hc
  unfold shape at h
  split at h
  · cases h; simp [FieldKind.schemas] at hc
  · cases h; simp [FieldKind.schemas] at hc
  · next items _ =>
    simp only [Except.ok.injEq, Shape.ofElement?] at h
    split at h
    · split at h <;> cases h
    · cases h
  · next s hs =>
    cases h
    have hm := Table.mem_of_get? (get?_of_statedType? hs)
    refine schemas_of_mem_record hm c ?_
    simpa [schemas, FieldKind.schemas] using hc
  · rw [named (Except.ok.inj h)] at hc
    cases hc
  · split at h
    · cases h; simp [FieldKind.schemas] at hc
    · split at h
      · rw [named (Except.ok.inj h)] at hc
        cases hc
      · cases h
  · cases h

variable [Document δ]

/-- A type that was resolved is made of the record of its definition and of a kind: the one under
the type key, or an array whose elements are looked at further. -/
theorem typeAt_cases {o : Options} {path : String} {d : Definition δ} {t : FieldType δ}
    (h : d.typeAt o path = .ok t) :
    ∃ kind, t = d.fieldAt o.typeKey path kind ∧
      (shape o.typeKey path (d.record o.typeKey) = .ok (.plain kind) ∨
        shape o.typeKey path (d.record o.typeKey) = .ok .anyArray ∧ kind = .array (anything path) ∨
        ∃ x, shape o.typeKey path (d.record o.typeKey) = .ok (.arrayOf x) ∧
          arrayKind o path x = .ok kind) := by
  rw [typeAt_eq] at h
  split at h
  · cases h
  · next kind hs => exact ⟨kind, (Except.ok.inj h).symm, .inl hs⟩
  · next hs => exact ⟨_, (Except.ok.inj h).symm, .inr (.inl ⟨hs, rfl⟩)⟩
  · next x hs =>
    cases hk : arrayKind o path x with
    | error e => rw [hk] at h; cases h
    | ok kind =>
      rw [hk] at h
      exact ⟨kind, (Except.ok.inj h).symm, .inr (.inr ⟨x, hs, hk⟩)⟩

/-- The elements of an array are the documents of a schema, which was compiled before or stands
inline, or they have a type of their own. -/
theorem arrayKind_cases {o : Options} {path : String} {x : Definition δ} {kind : FieldKind δ}
    (h : arrayKind o path x = .ok kind) :
    (∃ s, x = .schema s ∧ kind = .documents s) ∨
      (∃ s, isInline o.typeKey x = true ∧ Schema.compile o.forChild x = .ok s ∧
        kind = .documents s) ∨
      ∃ t, isInline o.typeKey x = false ∧ x.typeAt o path = .ok t ∧ kind = .array t := by
  unfold arrayKind at h
  split at h
  · next s => exact .inl ⟨s, rfl, (Except.ok.inj h).symm⟩
  · split at h
    · next hi =>
      cases hc : Schema.compile o.forChild x with
      | error e => rw [hc] at h; cases h
      | ok s =>
        rw [hc] at h
        exact .inr (.inl ⟨s, hi, rfl, (Except.ok.inj h).symm⟩)
    · next hi =>
      cases ht : typeAt o path x with
      | error e => rw [ht] at h; cases h
      | ok t =>
        rw [ht] at h
        exact .inr (.inr ⟨t, by simpa using hi, rfl, (Except.ok.inj h).symm⟩)

/-- The path of a compiled field is the one it was compiled for. -/
theorem path_typeAt {o : Options} {path : String} {d : Definition δ} {t : FieldType δ}
    (h : d.typeAt o path = .ok t) : t.path = path := by
  obtain ⟨kind, rfl, -⟩ := typeAt_cases h
  rfl

/-- A schema of a compiled field was held by the definition, or is compiled from a smaller
definition that stands inline in it. -/
theorem schemas_typeAt {o : Options} {path : String} {d : Definition δ} {t : FieldType δ}
    (h : d.typeAt o path = .ok t) :
    ∀ c ∈ t.schemas, c ∈ d.schemas ∨
      ∃ x : Definition δ, sizeOf x < sizeOf d ∧ (∀ b ∈ x.schemas, b ∈ d.schemas) ∧
        Schema.compile o.forChild x = .ok c := by
  intro c hc
  obtain ⟨kind, rfl, hs | ⟨-, rfl⟩ | ⟨x, hs, hk⟩⟩ := typeAt_cases h
  · exact .inl (schemas_of_plain hs c hc)
  · simp [FieldType.schemas, fieldAt, anything, FieldKind.schemas] at hc
  · have hx := schemas_of_shape hs
    have hlt := sizeOf_lt_of_arrayKind hs hk
    rw [FieldType.schemas_eq] at hc
    -- only an array of arrays goes on, with a smaller definition
    rcases arrayKind_cases hk with ⟨s, rfl, rfl⟩ | ⟨s, -, hs, rfl⟩ | ⟨t, -, ht, rfl⟩
    · exact .inl (hx c hc)
    · obtain rfl := List.mem_singleton.1 hc
      exact .inr ⟨x, hlt, hx, hs⟩
    · rcases schemas_typeAt ht c hc with hc | ⟨y, hy, hys, hyc⟩
      · exact .inl (hx c hc)
      · exact .inr ⟨y, Nat.lt_trans hy hlt, fun b hb => hx b (hys b hb), hyc⟩
termination_by sizeOf d

end Definition

end DocSchema
