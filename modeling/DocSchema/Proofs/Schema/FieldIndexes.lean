import Mathlib.Data.List.Nodup
import DocSchema.Proofs.Outcomes
import DocSchema.Proofs.Schema.IndexWalk

/-!
# The index of a field among all indexes

Every field that holds no documents and has an index, or whose elements have one, is found among the
indexes of a schema under its full name, and only once (`indexesOn_of_holdsField`). This is so for
the fields of sub-schemas at any depth, since no two fields have a common full name: of all fields
of a schema, only the one at a path or above it has an index on this path (`indexesOn_fields`). What
else is there on the same path was declared on the schema, or on a sub-schema, as a whole
(`declaredIndexes`).

A field that holds documents has no index of its own, whatever its record says, and of the types
inside an array only the outermost that has one counts (`dropped_indexes`).
-/

namespace DocSchema

variable {δ : Type}

namespace IndexEntry

/-- Whether an index is one of a single path. -/
def isOn (key : String) (e : IndexEntry) : Bool := e.fields.map Prod.fst = [key]

theorem isOn_toEntry {i : FieldIndex} {key path : String} :
    (i.toEntry path).withBackground.isOn key = true ↔ path = key := by
  simp [isOn, withBackground, FieldIndex.toEntry]

theorem isOn_prefixed (path name : String) (e : IndexEntry) :
    (e.prefixed (path ++ ".")).isOn (Path.below path name) = e.isOn name := by
  have names : (e.prefixed (path ++ ".")).fields.map Prod.fst =
      (e.fields.map Prod.fst).map (Path.below path) := by
    rw [prefixed, List.map_map, List.map_map]
    rfl
  have single : [Path.below path name] = [name].map (Path.below path) := rfl
  have inj : Function.Injective (Path.below path) := fun a b => Path.below_inj.1
  simp only [isOn, names, single, inj.list_map.eq_iff]

/-- What stands below a path is on paths below it only. -/
theorem isBelow_of_isOn_prefixed {path key : String} {e : IndexEntry}
    (h : (e.prefixed (path ++ ".")).isOn key = true) : Path.isBelow path key = true := by
  have names : (e.prefixed (path ++ ".")).fields.map Prod.fst = [key] := of_decide_eq_true h
  rw [prefixed, List.map_map, List.map_eq_cons_iff] at names
  obtain ⟨f, rest, -, same, -⟩ := names
  rw [← same]
  exact Path.isBelow_below path f.1

end IndexEntry

/-- Those of some indexes that are on a path alone. -/
def indexesOn (key : String) (es : List IndexEntry) : List IndexEntry :=
  es.filter (IndexEntry.isOn key)

theorem indexesOn_append (key : String) (es es' : List IndexEntry) :
    indexesOn key (es ++ es') = indexesOn key es ++ indexesOn key es' :=
  List.filter_append es es'

theorem indexesOn_prefixed (path name : String) (es : List IndexEntry) :
    indexesOn (Path.below path name) (es.map (IndexEntry.prefixed (path ++ "."))) =
      (indexesOn name es).map (IndexEntry.prefixed (path ++ ".")) := by
  rw [indexesOn, indexesOn, List.filter_map]
  congr 1
  exact List.filter_congr fun e _ => IndexEntry.isOn_prefixed path name e

theorem indexesOn_prefixed_eq_nil {path key : String} (h : Path.isBelow path key = false)
    (es : List IndexEntry) : indexesOn key (es.map (IndexEntry.prefixed (path ++ "."))) = [] := by
  rw [indexesOn, List.filter_eq_nil_iff]
  intro e he on
  obtain ⟨e', -, rfl⟩ := List.mem_map.1 he
  rw [IndexEntry.isBelow_of_isOn_prefixed on] at h
  cases h

namespace Schema

/-! ### Indexes declared as a whole -/

mutual

/-- The indexes that are declared on a schema and on its sub-schemas as a whole. -/
def declaredIndexes : Schema δ → List IndexEntry
  | { fields := fields, ownIndexes := own, .. } =>
    declaredOfFields fields ++ own.map IndexEntry.withBackground
termination_by structural s => s

def declaredOfFields : List (String × FieldType δ) → List IndexEntry
  | [] => []
  | (path, t) :: rest =>
    (declaredOf t).map (IndexEntry.prefixed (path ++ ".")) ++ declaredOfFields rest
termination_by structural fields => fields

def declaredOf : FieldType δ → List IndexEntry
  | { path := _, kind := .embedded s, settings := _ } => declaredIndexes s
  | { path := _, kind := .documents s, settings := _ } => declaredIndexes s
  | _ => []
termination_by structural t => t

end

variable {s c : Schema δ} {key path : String} {t : FieldType δ}

theorem declaredOf_child (h : t.schema? = some c) : declaredOf t = c.declaredIndexes := by
  obtain ⟨p, kind, settings⟩ := t
  cases kind <;> simp_all [FieldType.schema?, declaredOf]

theorem declaredOf_leaf (h : t.schema? = none) : declaredOf t = [] := by
  obtain ⟨p, kind, settings⟩ := t
  cases kind <;> simp_all [FieldType.schema?, declaredOf]

/-- The indexes that are declared on the sub-schema of a field, with its path in front. -/
def declaredAt (path : String) (t : FieldType δ) : List IndexEntry :=
  (declaredOf t).map (IndexEntry.prefixed (path ++ "."))

theorem declaredOfFields_eq (fields : List (String × FieldType δ)) :
    declaredOfFields fields = fields.flatMap fun e => declaredAt e.1 e.2 := by
  induction fields with
  | nil => rfl
  | cons e rest ih =>
    obtain ⟨path, t⟩ := e
    rw [declaredOfFields, ih, List.flatMap_cons]
    rfl

theorem declaredIndexes_parts : s.declaredIndexes =
    (s.fields.flatMap fun e => declaredAt e.1 e.2) ++ s.ownIndexes.map IndexEntry.withBackground := by
  rw [← declaredOfFields_eq]
  cases s
  rfl

/-! ### One field among others -/

/-- Away from the path of a field and from what lies below it, the field has no indexes. -/
theorem indexesOn_indexesAt_eq_nil (ne : key ≠ path) (off : Path.isBelow path key = false)
    (t : FieldType δ) : indexesOn key (indexesAt path t) = [] := by
  unfold indexesAt
  split
  · exact indexesOn_prefixed_eq_nil off _
  · rw [indexesOn, List.filter_eq_nil_iff]
    intro e he on
    rw [Option.mem_toList, Option.map_eq_some_iff] at he
    obtain ⟨i, -, rfl⟩ := he
    exact ne (IndexEntry.isOn_toEntry.1 on).symm

/-- Another field is not at a path, nor above it, if some field is. -/
theorem Coherent.off_line (h : Coherent s) {other : String}
    (field : Table.contains s.fields path = true) (line : key = path ∨ Path.isBelow path key = true)
    (field' : Table.contains s.fields other = true) (ne : other ≠ path) :
    key ≠ other ∧ Path.isBelow other key = false := by
  have apart := h.not_below (.inl field) (.inl field')
  have apart' := h.not_below (.inl field') (.inl field)
  rw [Bool.eq_false_iff]
  rcases line with rfl | below
  · exact ⟨ne.symm, by rw [apart']; exact Bool.false_ne_true⟩
  · constructor
    · rintro rfl
      rw [apart] at below
      cases below
    · intro below'
      rcases Path.isBelow_trichotomy below below' with same | hb | hb
      · exact ne same.symm
      · rw [apart] at hb
        cases hb
      · rw [apart'] at hb
        cases hb

/-- Of what all fields have on a path, all comes from the field that is there or above it. -/
theorem indexesOn_fields (h : Coherent s) (field : Table.get? s.fields path = some t)
    (line : key = path ∨ Path.isBelow path key = true)
    {f : String → FieldType δ → List IndexEntry} (elsewhere : ∀ p, key ≠ p →
      Path.isBelow p key = false → ∀ u, indexesOn key (f p u) = []) :
    indexesOn key (s.fields.flatMap fun e => f e.1 e.2) = indexesOn key (f path t) := by
  have here : Table.contains s.fields path = true := (Table.contains_iff_get? _ _).2 ⟨t, field⟩
  have others : ∀ e ∈ s.fields, e.1 ≠ path → indexesOn key (f e.1 e.2) = [] := by
    intro e he ne
    have known : e.1 ∈ Table.keys s.fields := List.mem_map_of_mem he
    obtain ⟨ne, off⟩ := h.off_line here line ((Table.contains_iff_mem_keys _ _).2 known) ne
    exact elsewhere e.1 ne off e.2
  obtain ⟨pre, post, split⟩ := List.append_of_mem (Table.mem_of_get? field)
  have distinct := h.distinct
  rw [split] at others distinct ⊢
  rw [Table.keys, List.map_append, List.map_cons, List.nodup_middle] at distinct
  have fresh := (List.nodup_cons.1 distinct).1
  rw [List.mem_append, not_or] at fresh
  have before : pre.flatMap (fun e => indexesOn key (f e.1 e.2)) = [] :=
    List.flatMap_eq_nil_iff.2 fun e he =>
      others e (List.mem_append_left _ he) fun same => fresh.1 (List.mem_map.2 ⟨e, he, same⟩)
  have after : post.flatMap (fun e => indexesOn key (f e.1 e.2)) = [] :=
    List.flatMap_eq_nil_iff.2 fun e he =>
      others e (List.mem_append_right _ (List.mem_cons_of_mem _ he)) fun same =>
        fresh.2 (List.mem_map.2 ⟨e, he, same⟩)
  calc indexesOn key ((pre ++ (path, t) :: post).flatMap fun e => f e.1 e.2)
      = (pre ++ (path, t) :: post).flatMap fun e => indexesOn key (f e.1 e.2) :=
        List.filter_flatMap
    _ = indexesOn key (f path t) := by
        rw [List.flatMap_append, List.flatMap_cons, before, after, List.nil_append, List.append_nil]

/-- A schema has the indexes of the field at a path or above it, those declared below this field
among them, and those declared on itself as a whole. -/
theorem indexesOn_line [Document δ] (hs : Reachable s)
    (field : Table.get? s.fields path = some t)
    (line : key = path ∨ Path.isBelow path key = true) :
    indexesOn key s.indexes = indexesOn key (indexesAt path t) ++
        indexesOn key (s.ownIndexes.map IndexEntry.withBackground) ∧
      indexesOn key s.declaredIndexes = indexesOn key (declaredAt path t) ++
        indexesOn key (s.ownIndexes.map IndexEntry.withBackground) := by
  have order := Coherent.of_reached hs
  constructor
  · rw [indexes_parts hs, indexesOn_append, indexesOn_fields order field line]
    exact fun p => indexesOn_indexesAt_eq_nil
  · rw [declaredIndexes_parts, indexesOn_append, indexesOn_fields order field line]
    exact fun p _ off u => indexesOn_prefixed_eq_nil off _

/-! ### Fields at any depth -/

/-- The fields of a schema and of its sub-schemas, by their full names. -/
inductive HoldsField : Schema δ → String → FieldType δ → Prop where
  | field {s : Schema δ} {path : String} {t : FieldType δ}
      (field : Table.get? s.fields path = some t) : HoldsField s path t
  | inside {s c : Schema δ} {path name : String} {t u : FieldType δ}
      (field : Table.get? s.fields path = some t) (holds : t.schema? = some c)
      (within : HoldsField c name u) : HoldsField s (Path.below path name) u

variable [Document δ]

/-- A field that holds no documents and has an index, or whose elements have one where it has none
itself, has this index among those of the schema: first of all that are on its path alone, and the
only one that was not declared on a schema as a whole. -/
theorem indexesOn_of_holdsField {i : FieldIndex} (hs : Reachable s) (held : HoldsField s key t)
    (leaf : t.schema? = none)
    (index : t.settings.index.or (t.element?.bind fun e => e.settings.index) = some i) :
    indexesOn key s.indexes =
      (i.toEntry key).withBackground :: indexesOn key s.declaredIndexes := by
  induction held with
  | @field s path t field =>
    obtain ⟨indexes, declared⟩ := indexesOn_line hs field (.inl rfl)
    have own : indexesAt path t = [(i.toEntry path).withBackground] := by
      rw [indexesAt, leaf, index]
      rfl
    have on : indexesOn path [(i.toEntry path).withBackground] =
        [(i.toEntry path).withBackground] := by
      rw [indexesOn, List.filter_cons_of_pos (IndexEntry.isOn_toEntry.2 rfl), List.filter_nil]
    rw [indexes, declared, own, on, declaredAt, declaredOf_leaf leaf]
    rfl
  | @inside s c path name t u field holds within ih =>
    have below := Path.isBelow_below path name
    obtain ⟨indexes, declared⟩ := indexesOn_line hs field (.inr below)
    have reached := hs.inside (path, t) (List.mem_append_left _ (Table.mem_of_get? field)) c
      (FieldType.mem_schemas_of_schema? holds)
    have inner : indexesAt path t = c.indexes.map (IndexEntry.prefixed (path ++ ".")) := by
      rw [indexesAt, holds]
    rw [indexes, declared, inner, declaredAt, declaredOf_child holds, indexesOn_prefixed,
      indexesOn_prefixed, ih reached leaf index]
    rfl

/-- A parcel with the places where it stopped, each with some codes that have an index. -/
def parcelDefinition : Definition MemoryDocument :=
  .object [("stops", .array [.object [("codes", .array [.object [
    ("type", .literal (.str "String")), ("index", .literal (.bool true))]])]])]

/-- The call that declares an index on the codes once more, for the parcel as a whole. -/
def indexCodes : Call MemoryDocument := .index (.obj [("stops.codes", .int (-1))]) .null

/-- The index of the codes comes from the elements of an array inside documents, and the other one
that was declared comes after it. -/
theorem indexesOn_of_holdsField_codes : ∃ (s₀ s : Schema MemoryDocument) (i : FieldIndex),
    compile {} parcelDefinition = .ok s₀ ∧ (indexCodes.run s₀).1 = s ∧
      indexesOn "stops.codes" s.indexes =
        (i.toEntry "stops.codes").withBackground :: indexesOn "stops.codes" s.declaredIndexes := by
  have h : (compile {} parcelDefinition).toOption.any (fun s₀ =>
      (Table.get? (indexCodes.run s₀).1.fields "stops").any fun t => t.schema?.any fun c =>
        (Table.get? c.fields "codes").any fun u => u.schema?.isNone &&
          (u.settings.index.or (u.element?.bind fun e => e.settings.index)).isSome) = true := by
    decide +kernel
  obtain ⟨s₀, compiled, h⟩ := exists_ok_of_any h
  obtain ⟨t, stops, h⟩ := (Option.any_eq_true _ _).1 h
  obtain ⟨c, holds, h⟩ := (Option.any_eq_true _ _).1 h
  obtain ⟨u, codes, h⟩ := (Option.any_eq_true _ _).1 h
  obtain ⟨leaf, indexed⟩ := Bool.and_eq_true_iff.1 h
  obtain ⟨i, index⟩ := Option.isSome_iff_exists.1 indexed
  have start : Reachable s₀ := .compile (by simp [parcelDefinition, Definition.schemas,
    Definition.fieldSchemas, Definition.itemSchemas]) compiled
  have reached : Reachable (indexCodes.run s₀).1 :=
    .call indexCodes start (by simp [indexCodes, Call.schemas]) trivial
  have held : HoldsField (indexCodes.run s₀).1 (Path.below "stops" "codes") u :=
    .inside stops holds (.field codes)
  exact ⟨s₀, _, i, compiled, rfl,
    indexesOn_of_holdsField reached held (Option.isNone_iff_eq_none.1 leaf) index⟩

/-! ### Indexes that are not collected -/

/-- The types inside a schema, by the names of the paths around them: those of its fields, those of
the elements of arrays, and those inside the schemas of documents. -/
inductive Contains : Schema δ → String → FieldType δ → Prop where
  | field {s : Schema δ} {path : String} {t : FieldType δ}
      (field : Table.get? s.fields path = some t) : Contains s path t
  | element {s : Schema δ} {key : String} {t e : FieldType δ} (array : Contains s key t)
      (element : t.element? = some e) : Contains s key e
  | inside {s c : Schema δ} {key name : String} {t u : FieldType δ} (documents : Contains s key t)
      (holds : t.schema? = some c) (within : Contains c name u) :
      Contains s (Path.below key name) u

/-- Whether a type inside the schema of a definition has an index that is none of the indexes of
this schema. -/
def DropsIndex (d : Definition MemoryDocument) (key : String) : Prop :=
  ∃ (s : Schema MemoryDocument) (t : FieldType MemoryDocument) (i : FieldIndex),
    compile {} d = .ok s ∧ Reachable s ∧ Contains s key t ∧ t.settings.index = some i ∧
      (i.toEntry key).withBackground ∉ s.indexes

def indexed (type : Definition MemoryDocument) : Definition MemoryDocument :=
  .object [("type", type), ("index", .literal (.bool true))]

/-- Whether a type has an index that is none of those of a schema. -/
def drops (s : Schema MemoryDocument) (key : String) (t : FieldType MemoryDocument) : Bool :=
  t.settings.index.any fun i => s.indexes.all fun e =>
    decide (e.fields ≠ (i.toEntry key).withBackground.fields)

theorem DropsIndex.of_drops {d : Definition MemoryDocument} {s : Schema MemoryDocument}
    {t : FieldType MemoryDocument} (noSchemas : d.schemas = []) (compiled : compile {} d = .ok s)
    (inside : Contains s key t) (h : drops s key t = true) : DropsIndex d key := by
  obtain ⟨i, index, others⟩ := (Option.any_eq_true _ _).1 h
  have reached : Reachable s := .compile (by simp [noSchemas]) compiled
  refine ⟨s, t, i, compiled, reached, inside, index, fun known => ?_⟩
  have other := of_decide_eq_true (List.all_eq_true.1 others _ known)
  exact other rfl

def indexedTowns : Definition MemoryDocument :=
  .object [("towns", indexed (.array [.object [("name", .literal (.str "String"))]]))]

/-- A grid of documents with names that have an index. -/
def indexedNames : Definition MemoryDocument :=
  .object [("grid", .array [.array [.object [("name", indexed (.literal (.str "String")))]]])]

def indexedTexts : Definition MemoryDocument :=
  .object [("grid", .array [.array [indexed (.literal (.str "String"))]])]

/-- An array with an index and with elements that have another one. -/
def indexedTags : Definition MemoryDocument :=
  .object [("tags", .object [("type", .array [indexed (.literal (.str "String"))]),
    ("index", .literal (.num (.int (-1))))])]

/-- Four indexes that are not collected: that of a field that holds documents, that of a field of
documents inside two arrays, that of the elements of two arrays, and that of the elements of an
array that has an index itself. -/
theorem dropped_indexes : DropsIndex indexedTowns "towns" ∧ DropsIndex indexedNames "grid.name" ∧
    DropsIndex indexedTexts "grid" ∧ DropsIndex indexedTags "tags" := by
  refine ⟨?_, ?_, ?_, ?_⟩
  · have h : (compile {} indexedTowns).toOption.any (fun s =>
        (Table.get? s.fields "towns").any fun t => drops s "towns" t) = true := by decide +kernel
    obtain ⟨s, compiled, h⟩ := exists_ok_of_any h
    obtain ⟨t, towns, h⟩ := (Option.any_eq_true _ _).1 h
    exact .of_drops rfl compiled (.field towns) h
  · have h : (compile {} indexedNames).toOption.any (fun s =>
        (Table.get? s.fields "grid").any fun t => t.element?.any fun e => e.schema?.any fun c =>
          (Table.get? c.fields "name").any fun u => drops s "grid.name" u) = true := by
      decide +kernel
    obtain ⟨s, compiled, h⟩ := exists_ok_of_any h
    obtain ⟨t, grid, h⟩ := (Option.any_eq_true _ _).1 h
    obtain ⟨e, element, h⟩ := (Option.any_eq_true _ _).1 h
    obtain ⟨c, holds, h⟩ := (Option.any_eq_true _ _).1 h
    obtain ⟨u, name, h⟩ := (Option.any_eq_true _ _).1 h
    have cell : Contains s "grid" e := .element (.field grid) element
    exact .of_drops rfl compiled (.inside cell holds (.field name)) h
  · have h : (compile {} indexedTexts).toOption.any (fun s =>
        (Table.get? s.fields "grid").any fun t => t.element?.any fun row =>
          row.element?.any fun e => drops s "grid" e) = true := by decide +kernel
    obtain ⟨s, compiled, h⟩ := exists_ok_of_any h
    obtain ⟨t, grid, h⟩ := (Option.any_eq_true _ _).1 h
    obtain ⟨row, rows, h⟩ := (Option.any_eq_true _ _).1 h
    obtain ⟨e, cells, h⟩ := (Option.any_eq_true _ _).1 h
    exact .of_drops rfl compiled (.element (.element (.field grid) rows) cells) h
  · have h : (compile {} indexedTags).toOption.any (fun s =>
        (Table.get? s.fields "tags").any fun t => t.element?.any fun e => drops s "tags" e) =
          true := by decide +kernel
    obtain ⟨s, compiled, h⟩ := exists_ok_of_any h
    obtain ⟨t, tags, h⟩ := (Option.any_eq_true _ _).1 h
    obtain ⟨e, element, h⟩ := (Option.any_eq_true _ _).1 h
    exact .of_drops rfl compiled (.element (.field tags) element) h

end Schema

end DocSchema
