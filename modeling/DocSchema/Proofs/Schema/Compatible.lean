import DocSchema.Proofs.Schema.IndexWalk
import DocSchema.Proofs.Table.Order
import DocSchema.Json.Sorted

/-!
# Compatible schemas

Two schemas are compatible if they have the same fields, in whatever order, of the same kinds and
with indexes that say the same; the schemas of documents inside of them are compatible in turn.
Compatible schemas have the same indexes up to their order (`Compatible.perm_indexes`).
-/

namespace DocSchema

/-! ### What an index says -/

/-- What an index of a field says: its direction, and the value of each option. -/
def FieldIndex.content (i : FieldIndex) : Option Direction × (String → Option Json) :=
  (i.direction, fun key => (Table.get? i.options key).map Json.sorted)

/-- What an index says: its fields in order, and the value of each option. -/
def IndexEntry.content (e : IndexEntry) : List (String × Direction) × (String → Option Json) :=
  (e.fields, fun key => (Table.get? e.options key).map Json.sorted)

theorem IndexEntry.content_of_field {i i' : FieldIndex} (h : i.content = i'.content)
    (path : String) :
    (i.toEntry path).withBackground.content = (i'.toEntry path).withBackground.content := by
  obtain ⟨direction, options⟩ := Prod.mk.inj h
  refine Prod.ext ?_ (funext fun key => ?_)
  · simp [content, withBackground, FieldIndex.toEntry, direction]
  · have here := congrFun options key
    simp only [content, get?_withBackground, FieldIndex.toEntry]
    split
    · cases hx : Table.get? i.options key <;> cases hy : Table.get? i'.options key <;>
        simp_all
    · exact here

variable {δ : Type}

/-! ### Compatible schemas -/

mutual

/-- Kinds of fields that hold the same values. -/
inductive FieldKind.Compatible : FieldKind δ → FieldKind δ → Prop
  | refl (kind : FieldKind δ) : FieldKind.Compatible kind kind
  | embedded {c c' : Schema δ} (h : Schema.Compatible c c') :
      FieldKind.Compatible (.embedded c) (.embedded c')
  | documents {c c' : Schema δ} (h : Schema.Compatible c c') :
      FieldKind.Compatible (.documents c) (.documents c')
  | array {t t' : FieldType δ} (h : FieldType.Compatible t t') :
      FieldKind.Compatible (.array t) (.array t')

/-- Fields of one path that hold the same values and have the same index. -/
inductive FieldType.Compatible : FieldType δ → FieldType δ → Prop
  | intro {path : String} {kind kind' : FieldKind δ} {settings settings' : Settings}
      (same : FieldKind.Compatible kind kind')
      (index : settings.index.map FieldIndex.content = settings'.index.map FieldIndex.content) :
      FieldType.Compatible ⟨path, kind, settings⟩ ⟨path, kind', settings'⟩

/-- Schemas with the same fields, in whatever order, and with the same indexes of their own. -/
inductive Schema.Compatible : Schema δ → Schema δ → Prop
  | intro {s s' : Schema δ} (distinct : (Table.keys s.fields).Nodup)
      (distinct' : (Table.keys s'.fields).Nodup)
      (names : ∀ path, Table.contains s.fields path = Table.contains s'.fields path)
      (fields : ∀ path t t', Table.get? s.fields path = some t →
        Table.get? s'.fields path = some t' → FieldType.Compatible t t')
      (indexes : s.ownIndexes = s'.ownIndexes) : Schema.Compatible s s'

end

namespace FieldType

variable {t t' : FieldType δ}

theorem Compatible.refl : ∀ t : FieldType δ, Compatible t t
  | ⟨_, kind, _⟩ => .intro (.refl kind) rfl

/-- Fields whose indexes say the same have index entries that say the same. -/
theorem indexEntries_congr (h : t.index?.map FieldIndex.content = t'.index?.map FieldIndex.content)
    (front path : String) : (t.indexEntries front path).map IndexEntry.content =
      (t'.indexEntries front path).map IndexEntry.content := by
  unfold indexEntries
  cases hi : t.index? with
  | none =>
    rw [hi, Option.map_none, eq_comm, Option.map_eq_none_iff] at h
    rw [h]
  | some i =>
    rw [hi, Option.map_some, eq_comm, Option.map_eq_some_iff] at h
    obtain ⟨i', hi', same⟩ := h
    rw [hi']
    simp [IndexEntry.content_of_field same]

theorem index?_congr (own : t.settings.index.map FieldIndex.content =
      t'.settings.index.map FieldIndex.content)
    (element : (t.element?.bind fun e => e.settings.index).map FieldIndex.content =
      (t'.element?.bind fun e => e.settings.index).map FieldIndex.content) :
    t.index?.map FieldIndex.content = t'.index?.map FieldIndex.content := by
  rw [index?, index?, Option.map_or, Option.map_or, own, element]

end FieldType

namespace Schema

variable {s s' : Schema δ}

theorem plainFieldIndexes_flatMap (front : String) (fields : List (String × FieldType δ)) :
    plainFieldIndexes front fields = fields.flatMap fun e => plainIndexesOf front e.1 e.2 := by
  induction fields with
  | nil => rfl
  | cons e fields ih =>
    obtain ⟨path, t⟩ := e
    rw [plainFieldIndexes, ih, List.flatMap_cons]

-- The three go round as the indexes do: those of a schema are put together from those of its
-- fields, and the indexes of a field are those of the schema of its documents, if it holds any.
mutual

theorem perm_plainIndexes : ∀ {s s' : Schema δ}, Compatible s s' → ∀ front,
    ((s.plainIndexes front).map IndexEntry.content).Perm
      ((s'.plainIndexes front).map IndexEntry.content)
  | s, s', .intro distinct distinct' names fields indexes, front => by
    rw [plainIndexes_eq, plainIndexes_eq, indexes, List.map_append, List.map_append,
      plainFieldIndexes_flatMap, plainFieldIndexes_flatMap, List.map_flatMap, List.map_flatMap]
    refine List.Perm.append_right _ (Table.perm_flatMap distinct distinct' names ?_)
    exact fun path t t' ht ht' => perm_plainIndexesOf (fields path t t' ht ht') front path

theorem perm_plainIndexesOf : ∀ {t t' : FieldType δ}, FieldType.Compatible t t' → ∀ front path,
    ((plainIndexesOf front path t).map IndexEntry.content).Perm
      ((plainIndexesOf front path t').map IndexEntry.content)
  | _, _, .intro same index, front, path => perm_plainIndexesOfKind same index front path

theorem perm_plainIndexesOfKind : ∀ {kind kind' : FieldKind δ}, FieldKind.Compatible kind kind' →
    ∀ {p : String} {settings settings' : Settings},
      settings.index.map FieldIndex.content = settings'.index.map FieldIndex.content →
        ∀ front path, ((plainIndexesOf front path ⟨p, kind, settings⟩).map IndexEntry.content).Perm
          ((plainIndexesOf front path ⟨p, kind', settings'⟩).map IndexEntry.content)
  | _, _, .embedded h, _, _, _, _, front, path => perm_plainIndexes h (front ++ path ++ ".")
  | _, _, .documents h, _, _, _, _, front, path => perm_plainIndexes h (front ++ path ++ ".")
  | _, _, .array h, _, _, _, index, front, path => by
    rw [plainIndexesOf_leaf rfl, plainIndexesOf_leaf rfl]
    refine .of_eq (FieldType.indexEntries_congr (FieldType.index?_congr index ?_) front path)
    cases h with
    | intro _ element => exact element
  | kind, _, .refl _, p, settings, settings', index, front, path => by
    cases hc : FieldType.schema? ⟨p, kind, settings⟩ with
    | some c =>
      have hc' : FieldType.schema? ⟨p, kind, settings'⟩ = some c := hc
      rw [plainIndexesOf_child hc, plainIndexesOf_child hc']
    | none =>
      have hc' : FieldType.schema? ⟨p, kind, settings'⟩ = none := hc
      rw [plainIndexesOf_leaf hc, plainIndexesOf_leaf hc']
      refine .of_eq (FieldType.indexEntries_congr (FieldType.index?_congr index ?_) front path)
      cases kind <;> rfl

end

/-- Compatible schemas have the same indexes, up to their order and the order of their options. -/
theorem Compatible.perm_indexes [Document δ] (h : Compatible s s') (hs : Reachable s)
    (hs' : Reachable s') :
    (s.indexes.map IndexEntry.content).Perm (s'.indexes.map IndexEntry.content) := by
  rw [indexes, indexes, walk_start hs, walk_start hs']
  exact perm_plainIndexes h ""

end Schema

end DocSchema
