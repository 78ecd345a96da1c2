import DocSchema.Proofs.Schema.Names
import DocSchema.Schema.Indexes

/-!
# The indexes of a schema, composed from those of its sub-schemas

A walk for the indexes keeps the starts it has visited and skips a sub-schema whose start it has met
before. Since no field of a schema lies below another one, the starts of two sub-schemas have
nothing in common, at whatever depth they are met, so nothing is ever skipped: the walk is the plain
recursion, and it visits all starts in order (`walk_eq`). The plain recursion, in turn, composes:
what stands below a path is what the sub-schema has by itself, with the path in front of every field
(`plainIndexes_append`).
-/

namespace DocSchema

variable {δ : Type}

namespace IndexEntry

theorem prefixed_empty (e : IndexEntry) : e.prefixed "" = e := by
  simp [prefixed]

theorem prefixed_append (a b : String) (e : IndexEntry) :
    e.prefixed (a ++ b) = (e.prefixed b).prefixed a := by
  simp [prefixed, String.append_assoc]

theorem placed_append (a b : String) (e : IndexEntry) :
    e.placed (a ++ b) = (e.placed b).prefixed a := by
  unfold placed
  rw [prefixed_append]
  rfl

/-- An entry says whether it is built in the background: as its options say, and else it is. Its
other options stay as they are. -/
theorem get?_withBackground (e : IndexEntry) (key : String) :
    Table.get? e.withBackground.options key =
      if key = "background" then some ((Table.get? e.options key).getD (.bool true))
      else Table.get? e.options key := by
  rw [withBackground]
  dsimp only
  cases h : Table.get? e.options "background" with
  | some v =>
    rw [Table.insertNew_of_get? _ h]
    split
    · next hk => rw [hk, h, Option.getD_some]
    · rfl
  | none =>
    rw [Table.insertNew_of_free _ h]
    split
    · next hk => rw [hk, Table.get?_insert_self, h, Option.getD_none]
    · next hk => exact Table.get?_insert_of_ne _ _ hk

theorem contains_withBackground (e : IndexEntry) :
    Table.contains e.withBackground.options "background" = true := by
  rw [Table.contains_iff_get?, get?_withBackground, if_pos rfl]
  exact ⟨_, rfl⟩

end IndexEntry

namespace Schema

mutual

/-- The starts of the paths of a schema and of all its sub-schemas, by plain recursion. -/
def starts (front : String) : Schema δ → List String
  | { fields := fields, .. } => front :: fieldStarts front fields
termination_by structural s => s

def fieldStarts (front : String) : List (String × FieldType δ) → List String
  | [] => []
  | (path, t) :: rest => startsOf front path t ++ fieldStarts front rest
termination_by structural fields => fields

def startsOf (front path : String) : FieldType δ → List String
  | { path := _, kind := .embedded s, settings := _ } => starts (front ++ path ++ ".") s
  | { path := _, kind := .documents s, settings := _ } => starts (front ++ path ++ ".") s
  | _ => []
termination_by structural t => t

end

variable {s c : Schema δ} {front path : String} {seen : List String} {t : FieldType δ}

/-! ### One equation for each function -/

theorem starts_eq : s.starts front = front :: fieldStarts front s.fields := by
  cases s
  rfl

theorem startsOf_child (h : t.schema? = some c) :
    startsOf front path t = c.starts (front ++ path ++ ".") := by
  obtain ⟨p, kind, settings⟩ := t
  cases kind <;> simp_all [FieldType.schema?, startsOf]

theorem startsOf_leaf (h : t.schema? = none) : startsOf front path t = [] := by
  obtain ⟨p, kind, settings⟩ := t
  cases kind <;> simp_all [FieldType.schema?, startsOf]

theorem plainIndexes_eq : s.plainIndexes front =
    plainFieldIndexes front s.fields ++ s.ownIndexes.map (IndexEntry.placed front) := by
  cases s
  rfl

theorem plainIndexesOf_child (h : t.schema? = some c) :
    plainIndexesOf front path t = c.plainIndexes (front ++ path ++ ".") := by
  obtain ⟨p, kind, settings⟩ := t
  cases kind <;> simp_all [FieldType.schema?, plainIndexesOf]

theorem plainIndexesOf_leaf (h : t.schema? = none) :
    plainIndexesOf front path t = t.indexEntries front path := by
  obtain ⟨p, kind, settings⟩ := t
  cases kind <;> simp_all [FieldType.schema?, plainIndexesOf]

theorem walkField_child (h : t.schema? = some c) :
    walkField front path seen t = c.walk (front ++ path ++ ".") seen := by
  obtain ⟨p, kind, settings⟩ := t
  cases kind <;> simp_all [FieldType.schema?, walkField]

theorem walkField_leaf (h : t.schema? = none) :
    walkField front path seen t = (t.indexEntries front path, seen) := by
  obtain ⟨p, kind, settings⟩ := t
  cases kind <;> simp_all [FieldType.schema?, walkField]

/-- A start that was not visited before is visited, and then those of the fields. -/
theorem walk_of_not_mem (h : front ∉ seen) : s.walk front seen =
    ((walkFields front (seen ++ [front]) s.fields).1 ++ s.ownIndexes.map (IndexEntry.placed front),
      (walkFields front (seen ++ [front]) s.fields).2) := by
  cases s
  rw [walk, if_neg (by simpa using h)]

/-! ### Nothing is visited twice -/

/-- Whether a text is one of those that start in a certain way. -/
def StartsWith (front text : String) : Prop := ∃ rest, text = front ++ rest

theorem StartsWith.child {text : String} (h : StartsWith (front ++ path ++ ".") text) :
    StartsWith front text := by
  obtain ⟨rest, rfl⟩ := h
  exact ⟨path ++ "." ++ rest, by simp only [String.append_assoc]⟩

/-- A start is not one of those after it. -/
theorem not_startsWith_self : ¬ StartsWith (front ++ path ++ ".") front := by
  rintro ⟨rest, h⟩
  have lengths := congrArg String.length h
  have dot : ".".length = 1 := rfl
  simp only [String.length_append, dot] at lengths
  omega

/-- Whether nothing can be below two of the fields. -/
def FieldsApart (fields : List (String × FieldType δ)) : Prop :=
  (Table.keys fields).Pairwise fun a b => ∀ m n, Path.below a m ≠ Path.below b n

theorem Coherent.fieldsApart (h : Coherent s) : FieldsApart s.fields := by
  refine h.distinct.imp_of_mem fun {a b} ha hb hne => ?_
  have fieldA : s.Declares a := .inl ((Table.contains_iff_mem_keys _ _).2 ha)
  have fieldB : s.Declares b := .inl ((Table.contains_iff_mem_keys _ _).2 hb)
  exact Path.below_ne_below (h.not_below fieldA fieldB) (h.not_below fieldB fieldA) hne

/-- Two fields that have nothing below both have no start in common. -/
theorem not_startsWith_both {a b text : String} (apart : ∀ m n, Path.below a m ≠ Path.below b n)
    (ha : StartsWith (front ++ a ++ ".") text) : ¬ StartsWith (front ++ b ++ ".") text := by
  obtain ⟨m, rfl⟩ := ha
  rintro ⟨n, h⟩
  refine apart m n (String.toList_inj.1 ?_)
  have := congrArg String.toList h
  simpa [Path.below, String.toList_append] using this

/-- What the walk does to a schema that has only new starts: the plain recursion, and it visits all
starts of the schema. -/
def WalksPlainly (s : Schema δ) : Prop :=
  ∀ front seen, (∀ f ∈ seen, ¬ StartsWith front f) →
    s.walk front seen = (s.plainIndexes front, seen ++ s.starts front)

theorem startsWith_of_mem_fieldStarts {fields : List (String × FieldType δ)}
    (children : ∀ e ∈ fields, ∀ c ∈ e.2.schemas,
      ∀ front, ∀ f ∈ c.starts front, StartsWith front f) :
    ∀ f ∈ fieldStarts front fields, StartsWith front f := by
  induction fields with
  | nil =>
    intro f hf
    cases hf
  | cons e rest ih =>
    obtain ⟨path, t⟩ := e
    intro f hf
    rw [fieldStarts, List.mem_append] at hf
    rcases hf with hf | hf
    · cases hc : t.schema? with
      | none =>
        rw [startsOf_leaf hc] at hf
        cases hf
      | some c =>
        rw [startsOf_child hc] at hf
        have inside := FieldType.mem_schemas_of_schema? hc
        exact (children (path, t) List.mem_cons_self c inside _ f hf).child
    · exact ih (fun e he => children e (List.mem_cons_of_mem _ he)) f hf

/-- The starts of a schema all start with its own one. -/
theorem startsWith_of_mem_starts (s : Schema δ) :
    ∀ front, ∀ f ∈ s.starts front, StartsWith front f := by
  induction s using Schema.induction_on_fields with
  | _ s ih =>
    intro front f hf
    rw [starts_eq, List.mem_cons] at hf
    rcases hf with rfl | hf
    · exact ⟨"", by simp⟩
    · exact startsWith_of_mem_fieldStarts ih f hf

/-- The walk over fields, as long as the starts of each of them are new. The starts that it visits
at one field are new to the fields after it. -/
theorem walkFields_eq {fields : List (String × FieldType δ)} (apart : FieldsApart fields)
    (children : ∀ e ∈ fields, ∀ c ∈ e.2.schemas, WalksPlainly c) (front : String) :
    ∀ seen, (∀ e ∈ fields, ∀ f ∈ seen, ¬ StartsWith (front ++ e.1 ++ ".") f) →
      walkFields front seen fields =
        (plainFieldIndexes front fields, seen ++ fieldStarts front fields) := by
  induction fields with
  | nil =>
    intro seen _
    simp [walkFields, plainFieldIndexes, fieldStarts]
  | cons e rest ih =>
    obtain ⟨path, t⟩ := e
    intro seen fresh
    obtain ⟨first, others⟩ := List.pairwise_cons.1 apart
    have ih := ih others fun e he => children e (List.mem_cons_of_mem _ he)
    have field : walkField front path seen t =
        (plainIndexesOf front path t, seen ++ startsOf front path t) := by
      cases hc : t.schema? with
      | none => rw [walkField_leaf hc, plainIndexesOf_leaf hc, startsOf_leaf hc, List.append_nil]
      | some c =>
        rw [walkField_child hc, plainIndexesOf_child hc, startsOf_child hc]
        exact children (path, t) List.mem_cons_self c (FieldType.mem_schemas_of_schema? hc) _ _
          (fresh (path, t) List.mem_cons_self)
    -- what this field adds to the starts lies below it, so it is new to the other fields
    have fresh' : ∀ e ∈ rest, ∀ f ∈ seen ++ startsOf front path t,
        ¬ StartsWith (front ++ e.1 ++ ".") f := by
      intro e he f hf
      rcases List.mem_append.1 hf with hf | hf
      · exact fresh e (List.mem_cons_of_mem _ he) f hf
      · cases hc : t.schema? with
        | none =>
          rw [startsOf_leaf hc] at hf
          cases hf
        | some c =>
          rw [startsOf_child hc] at hf
          have here := startsWith_of_mem_starts c _ f hf
          exact not_startsWith_both (first e.1 (List.mem_map_of_mem he)) here
    rw [walkFields, field]
    dsimp only
    rw [ih _ fresh', plainFieldIndexes, fieldStarts, List.append_assoc]

/-! ### A text in front of all paths -/

theorem indexEntries_append (a b : String) :
    t.indexEntries (a ++ b) path = (t.indexEntries b path).map (IndexEntry.prefixed a) := by
  unfold FieldType.indexEntries
  cases t.index? with
  | none => rfl
  | some i => simp [FieldIndex.toEntry, IndexEntry.withBackground, IndexEntry.prefixed,
      String.append_assoc]

theorem plainFieldIndexes_append {fields : List (String × FieldType δ)} (a b : String)
    (children : ∀ e ∈ fields, ∀ c ∈ e.2.schemas, ∀ b,
      c.plainIndexes (a ++ b) = (c.plainIndexes b).map (IndexEntry.prefixed a)) :
    plainFieldIndexes (a ++ b) fields =
      (plainFieldIndexes b fields).map (IndexEntry.prefixed a) := by
  induction fields with
  | nil => rfl
  | cons e rest ih =>
    obtain ⟨path, t⟩ := e
    have ih := ih fun e he => children e (List.mem_cons_of_mem _ he)
    have field : plainIndexesOf (a ++ b) path t =
        (plainIndexesOf b path t).map (IndexEntry.prefixed a) := by
      cases hc : t.schema? with
      | none => rw [plainIndexesOf_leaf hc, plainIndexesOf_leaf hc, indexEntries_append]
      | some c =>
        have inside := FieldType.mem_schemas_of_schema? hc
        rw [plainIndexesOf_child hc, plainIndexesOf_child hc,
          ← children (path, t) List.mem_cons_self c inside]
        simp only [String.append_assoc]
    rw [plainFieldIndexes, plainFieldIndexes, List.map_append, field, ih]

/-- A text in front of the start of a schema goes in front of every field of its indexes. -/
theorem plainIndexes_append (s : Schema δ) (a : String) : ∀ b,
    s.plainIndexes (a ++ b) = (s.plainIndexes b).map (IndexEntry.prefixed a) := by
  induction s using Schema.induction_on_fields with
  | _ s ih =>
    intro b
    have own : s.ownIndexes.map (IndexEntry.placed (a ++ b)) =
        (s.ownIndexes.map (IndexEntry.placed b)).map (IndexEntry.prefixed a) := by
      rw [List.map_map]
      exact List.map_congr_left fun e _ => IndexEntry.placed_append a b e
    rw [plainIndexes_eq, plainIndexes_eq, List.map_append, own,
      plainFieldIndexes_append a b fun e he c hc => ih e he c hc]

/-! ### The parts -/

/-- The indexes of one field: those of its sub-schema, with the path of the field and a dot in front
of all their fields, or else its own one, which may stand on its elements. -/
def indexesAt (path : String) (t : FieldType δ) : List IndexEntry :=
  match t.schema? with
  | some c => c.indexes.map (IndexEntry.prefixed (path ++ "."))
  | none =>
    ((t.settings.index.or (t.element?.bind fun e => e.settings.index)).map fun i =>
      (i.toEntry path).withBackground).toList

theorem indexEntries_empty (path : String) : t.indexEntries "" path =
    ((t.settings.index.or (t.element?.bind fun e => e.settings.index)).map fun i =>
      (i.toEntry path).withBackground).toList := by
  unfold FieldType.indexEntries FieldType.index?
  rw [String.empty_append]
  split
  · next i hi => rw [hi]; rfl
  · next hi => rw [hi]; rfl

/-- The plain recursion is put together from the indexes of the sub-schemas. -/
theorem plainFieldIndexes_eq {fields : List (String × FieldType δ)}
    (children : ∀ e ∈ fields, ∀ c ∈ e.2.schemas, c.indexes = c.plainIndexes "") :
    plainFieldIndexes "" fields = fields.flatMap fun e => indexesAt e.1 e.2 := by
  induction fields with
  | nil => rfl
  | cons e rest ih =>
    obtain ⟨path, t⟩ := e
    have ih := ih fun e he => children e (List.mem_cons_of_mem _ he)
    have field : plainIndexesOf "" path t = indexesAt path t := by
      unfold indexesAt
      cases hc : t.schema? with
      | none => rw [plainIndexesOf_leaf hc, indexEntries_empty]
      | some c =>
        have inside := FieldType.mem_schemas_of_schema? hc
        have below := plainIndexes_append c (path ++ ".") ""
        rw [String.append_empty] at below
        rw [plainIndexesOf_child hc, String.empty_append, below,
          ← children (path, t) List.mem_cons_self c inside]
    rw [plainFieldIndexes, field, ih, List.flatMap_cons]

theorem contains_background_of_indexesAt
    (children : ∀ c ∈ t.schemas, ∀ e ∈ c.indexes, Table.contains e.options "background" = true) :
    ∀ e ∈ indexesAt path t, Table.contains e.options "background" = true := by
  intro e he
  unfold indexesAt at he
  split at he
  · next c hc =>
    obtain ⟨e', he', rfl⟩ := List.mem_map.1 he
    exact children c (FieldType.mem_schemas_of_schema? hc) e' he'
  · rw [Option.mem_toList, Option.map_eq_some_iff] at he
    obtain ⟨i, -, rfl⟩ := he
    exact IndexEntry.contains_withBackground _

/-- The indexes of a schema are put together from its fields and its own declarations. -/
structure Composed (s : Schema δ) : Prop where
  /-- Those of the fields come first, in order, and then those of the schema as a whole. -/
  parts : s.indexes =
    (s.fields.flatMap fun e => indexesAt e.1 e.2) ++ s.ownIndexes.map IndexEntry.withBackground
  /-- Each of them says whether it is built in the background. -/
  background : ∀ e ∈ s.indexes, Table.contains e.options "background" = true
  /-- The walk leaves out no start that it meets. -/
  plain : s.walk "" [] = (s.plainIndexes "", s.starts "")

/-! ### After any calls -/

variable [Document δ]

/-- The walk through a reachable schema is the plain recursion, and it visits every start. -/
theorem walk_eq (hs : Reachable s) : WalksPlainly s := by
  induction s using Schema.induction_on_fields with
  | _ s ih =>
    intro front seen fresh
    have children : ∀ e ∈ s.fields, ∀ c ∈ e.2.schemas, WalksPlainly c := fun e he c hc =>
      ih e he c hc (hs.inside e (List.mem_append_left _ he) c hc)
    have apart := (Coherent.of_reached hs).fieldsApart
    -- the own start is shorter than those of the fields, so it is none of them
    have new : front ∉ seen := fun hm => fresh front hm ⟨"", by simp⟩
    have fresh' : ∀ e ∈ s.fields, ∀ f ∈ seen ++ [front], ¬ StartsWith (front ++ e.1 ++ ".") f := by
      intro e _ f hf
      rcases List.mem_append.1 hf with hf | hf
      · exact fun h => fresh f hf h.child
      · rw [List.mem_singleton.1 hf]
        exact not_startsWith_self
    have fields := walkFields_eq apart children front (seen ++ [front]) fresh'
    rw [walk_of_not_mem new, fields, plainIndexes_eq, starts_eq, List.append_assoc]
    rfl

theorem walk_start (hs : Reachable s) : s.walk "" [] = (s.plainIndexes "", s.starts "") :=
  walk_eq hs "" [] (by simp)

theorem indexes_parts (hs : Reachable s) : s.indexes =
    (s.fields.flatMap fun e => indexesAt e.1 e.2) ++
      s.ownIndexes.map IndexEntry.withBackground := by
  have children : ∀ e ∈ s.fields, ∀ c ∈ e.2.schemas, c.indexes = c.plainIndexes "" :=
    fun e he c hc => congrArg Prod.fst
      (walk_start (hs.inside e (List.mem_append_left _ he) c hc))
  have own : IndexEntry.placed "" = IndexEntry.withBackground := by
    funext e
    rw [IndexEntry.placed, IndexEntry.prefixed_empty]
  calc s.indexes = s.plainIndexes "" := congrArg Prod.fst (walk_start hs)
    _ = plainFieldIndexes "" s.fields ++ s.ownIndexes.map (IndexEntry.placed "") := plainIndexes_eq
    _ = _ := by rw [plainFieldIndexes_eq children, own]

theorem contains_background (hs : Reachable s) :
    ∀ e ∈ s.indexes, Table.contains e.options "background" = true := by
  induction s using Schema.induction_on_fields with
  | _ s ih =>
    intro e he
    rw [indexes_parts hs, List.mem_append] at he
    rcases he with he | he
    · obtain ⟨f, hf, he⟩ := List.mem_flatMap.1 he
      refine contains_background_of_indexesAt (fun c hc => ih f hf c hc ?_) e he
      exact hs.inside f (List.mem_append_left _ hf) c hc
    · obtain ⟨e', -, rfl⟩ := List.mem_map.1 he
      exact IndexEntry.contains_withBackground e'

/-- Whatever calls were made on a schema, its indexes are put together from those of its fields,
those of its sub-schemas and its own, and each is built in the background unless its options say
otherwise. -/
theorem indexes_composed (hs : Reachable s) : Composed s ∧ ∀ (e : IndexEntry) (key : String),
    Table.get? e.withBackground.options key =
      if key = "background" then some ((Table.get? e.options key).getD (.bool true))
      else Table.get? e.options key :=
  ⟨⟨indexes_parts hs, contains_background hs, walk_start hs⟩, IndexEntry.get?_withBackground⟩

/-- People with their addresses, where the towns of the addresses and the names of the people have
indexes. -/
def peopleDefinition : Definition MemoryDocument :=
  .object [
    ("name", .object [("type", .literal (.str "String")), ("index", .literal (.bool true))]),
    ("addresses", .array [.object [("town", .object [("type", .literal (.str "String")),
      ("index", .literal (.obj [("background", .bool false)]))])]])]

theorem indexes_composed_people : ∃ s₀, Schema.compile {} peopleDefinition = .ok s₀ ∧
    s₀.indexes.map (fun e => e.fields.map Prod.fst) = [["name"], ["addresses.town"]] ∧
    Composed ((Call.index (.obj [("name", .int 1), ("_id", .int (-1))]) .null).run s₀).1 := by
  have h : (Schema.compile {} peopleDefinition).toOption.map
      (fun s => s.indexes.map fun e => e.fields.map Prod.fst) =
        some [["name"], ["addresses.town"]] := by decide +kernel
  cases hc : Schema.compile {} peopleDefinition with
  | error e => rw [hc] at h; cases h
  | ok s₀ =>
    rw [hc] at h
    have reachable : Reachable s₀ := .compile (by simp [peopleDefinition, Definition.schemas,
      Definition.fieldSchemas, Definition.itemSchemas]) hc
    have call := Reached.call (.index (.obj [("name", .int 1), ("_id", .int (-1))]) .null) reachable
      (by simp [Call.schemas]) trivial
    exact ⟨s₀, rfl, Option.some.inj h, (indexes_composed call).1⟩

end Schema

end DocSchema
