import Mathlib.Data.List.Nodup
import DocSchema.Proofs.Outcomes
import DocSchema.Proofs.Schema.Lookups

/-!
# Looking up below an embedded schema

A schema keeps a copy of the names of every schema that is embedded in it, made when the field was
declared. The copy stays in step (`EmbedsInStep`): nothing else is known below the path of an
embedded schema, and declaring another field leaves it alone. So a path below an embedded schema
stands for what the rest of the path stands for in that schema (`Built.meaning_below`), positions in
the rest included.
-/

namespace DocSchema.Schema

variable {δ : Type} {s s' : Schema δ}

/-! ### The copies stay in step -/

/-- Whether a schema knows the names of an embedded schema below a path as they are in there. -/
structure InStep (s : Schema δ) (path : String) (child : Schema δ) : Prop where
  fields : ∀ name, Table.get? s.embeddedFields (Path.below path name) = child.declared? name
  groups : ∀ name, Path.below path name ∈ s.embeddedGroups ↔ child.KnowsGroup name

/-- Whether the names of all embedded schemas are known as they are in there. -/
structure EmbedsInStep (s : Schema δ) : Prop where
  distinct : (Table.keys s.embeddedFields).Nodup
  copies : ∀ {path t child}, Table.get? s.fields path = some t → t.kind = .embedded child →
    InStep s path child

/-- The names of a schema that is embedded are those below its path from then on. -/
theorem inStep_embed {path : String} {child : Schema δ} (order : Orderly child)
    (distinct : (Table.keys child.embeddedFields).Nodup) :
    InStep (s.embed path child) path child := by
  have gone : ∀ name, Path.below path name ∉
      Table.keys (s.embeddedFields.filter fun e => !Path.isBelow path e.1) := by
    intro name hm
    obtain ⟨a, ha⟩ := Table.mem_keys.1 hm
    simpa [Path.isBelow_below] using (List.mem_filter.1 ha).2
  -- no field of the child is known of a schema embedded in it as well
  have apart : (Table.keys (child.fields ++ child.embeddedFields)).Nodup := by
    rw [Table.keys, List.map_append]
    refine List.nodup_append.2 ⟨order.coherent.distinct, distinct, ?_⟩
    rintro k hk k' hk' rfl
    obtain ⟨p, hp, hb⟩ := order.embedded.below_field k (.inl hk')
    exact order.not_field_of_below hp hb (.inl ((Table.contains_iff_mem_keys _ _).2 hk))
  constructor
  · intro name
    have renamed : (Table.keys ((child.fields ++ child.embeddedFields).map fun e =>
        (Path.below path e.1, e.2))).Nodup := by
      have keys : Table.keys ((child.fields ++ child.embeddedFields).map fun e =>
          (Path.below path e.1, e.2)) =
          (Table.keys (child.fields ++ child.embeddedFields)).map (Path.below path) := by
        simp only [Table.keys, List.map_map]
        rfl
      rw [keys]
      exact apart.map fun a b => Path.below_inj.1
    show Table.get? (Table.insertAll _ _) (Path.below path name) = _
    rw [Table.get?_insertAll _ renamed, Table.get?_eq_none_of_not_mem (gone name), Option.or_none,
      Table.get?_map_key _ fun a b => Path.below_inj.1, Table.get?_append]
    rfl
  · intro name
    show Path.below path name ∈ List.foldl addName _ _ ↔ _
    rw [mem_foldl_addName, List.mem_filter, Path.isBelow_below]
    simp [Path.below_inj, KnowsGroup]

/-- The names below another path are left alone, if neither path lies below the other. -/
theorem InStep.embed {path other : String} {child c : Schema δ} (h : InStep s other c)
    (hne : other ≠ path) (hop : Path.isBelow other path = false)
    (hpo : Path.isBelow path other = false) : InStep (s.embed path child) other c := by
  have kept : ∀ name, Path.isBelow path (Path.below other name) = false := by
    intro name
    rw [Bool.eq_false_iff]
    intro hb
    obtain ⟨m, hm⟩ := Path.isBelow_iff.1 hb
    exact Path.below_ne_below hop hpo hne name m hm
  have old : ∀ name q, Path.below path q ≠ Path.below other name := by
    intro name q he
    have hb := Path.isBelow_below path q
    rw [he, kept name] at hb
    cases hb
  constructor
  · intro name
    rw [← h.fields name]
    show Table.get? (Table.insertAll _ ((child.fields ++ child.embeddedFields).map fun e =>
      (Path.below path e.1, e.2))) (Path.below other name) = _
    generalize child.fields ++ child.embeddedFields = new
    have start : Table.get? (s.embeddedFields.filter fun e => !Path.isBelow path e.1)
        (Path.below other name) = Table.get? s.embeddedFields (Path.below other name) := by
      rw [Table.get?_filter _ fun k => !Path.isBelow path k, kept name]
      rfl
    rw [← start]
    -- every new entry lies below the other path, so none is the one looked up
    generalize (s.embeddedFields.filter fun e => !Path.isBelow path e.1) = t
    induction new generalizing t with
    | nil => rfl
    | cons e new ih =>
      rw [List.map_cons, Table.insertAll_cons, ih,
        Table.get?_insert_of_ne _ _ (old name e.1).symm]
  · intro name
    rw [← h.groups name]
    show Path.below other name ∈ List.foldl addName _ _ ↔ _
    rw [mem_foldl_addName, List.mem_filter, kept name]
    simp [old name]

namespace EmbedsInStep

theorem empty (o : Options) : EmbedsInStep (Schema.empty o : Schema δ) where
  distinct := List.nodup_nil
  copies h := by simp [Schema.empty] at h

theorem congr (h : EmbedsInStep s) (hf : s'.fields = s.fields)
    (he : s'.embeddedFields = s.embeddedFields) (hg : s'.embeddedGroups = s.embeddedGroups) :
    EmbedsInStep s' := by
  refine ⟨he ▸ h.distinct, fun {path t child} ht hk => ?_⟩
  obtain ⟨fields, groups⟩ := h.copies (hf ▸ ht) hk
  exact ⟨he ▸ fields, hg ▸ groups⟩

/-- A field may be stored that lies apart from all others. -/
theorem adopt (h : EmbedsInStep s) {path : String} {t : FieldType δ}
    (apart : ∀ other ∈ Table.keys s.fields, other ≠ path →
      Path.isBelow other path = false ∧ Path.isBelow path other = false)
    (inside : ∀ child, t.kind = .embedded child →
      Orderly child ∧ (Table.keys child.embeddedFields).Nodup) :
    EmbedsInStep (s.adopt path t) := by
  have known {other : String} {t' : FieldType δ} (ht : Table.get? s.fields other = some t') :
      other ∈ Table.keys s.fields := Table.mem_keys.2 ⟨t', Table.mem_of_get? ht⟩
  rcases adopt_cases s path t with ⟨child, hk, hf, hg⟩ | ⟨hf, hg⟩
  · obtain ⟨order, distinct⟩ := inside child hk
    refine ⟨?_, fun {other t' c} ht hk' => ?_⟩
    · rw [hf]
      exact Table.nodup_keys_insertAll _ (h.distinct.sublist (List.filter_sublist.map Prod.fst))
    · have copy : InStep (s.embed path child) other c := by
        rw [adopt_fields] at ht
        by_cases he : other = path
        · subst he
          rw [Table.get?_insert_self] at ht
          obtain rfl := Option.some.inj ht
          obtain rfl := FieldKind.embedded.inj (hk.symm.trans hk')
          exact inStep_embed order distinct
        · rw [Table.get?_insert_of_ne _ _ he] at ht
          obtain ⟨hop, hpo⟩ := apart other (known ht) he
          exact (h.copies ht hk').embed he hop hpo
      exact ⟨hf ▸ copy.fields, hg ▸ copy.groups⟩
  · refine ⟨hf ▸ h.distinct, fun {other t' c} ht hk' => ?_⟩
    rw [adopt_fields] at ht
    by_cases he : other = path
    · -- what embeds nothing is not an embedded schema
      subst he
      rw [Table.get?_insert_self] at ht
      obtain rfl := Option.some.inj ht
      obtain ⟨order, distinct⟩ := inside c hk'
      have copy : InStep (s.embed other c) other c := inStep_embed order distinct
      have put : (s.adopt other t).embeddedFields = (s.embed other c).embeddedFields ∧
          (s.adopt other t).embeddedGroups = (s.embed other c).embeddedGroups := by
        unfold Schema.adopt
        rw [hk']
        exact ⟨rfl, rfl⟩
      exact ⟨put.1 ▸ copy.fields, put.2 ▸ copy.groups⟩
    · rw [Table.get?_insert_of_ne _ _ he] at ht
      have copy := h.copies ht hk'
      exact ⟨hf ▸ copy.fields, hg ▸ copy.groups⟩

end EmbedsInStep

variable [Document δ]

/-- Every step keeps the copies in step, given that the names are in order before it. -/
theorem EmbedsInStep.step (h : EmbedsInStep s) (order : Coherent s)
    (hs : Step (fun c => Built c ∧ Coherent c ∧ EmbedsInStep c) s s') : EmbedsInStep s' := by
  have order' : Coherent s' := order.step hs
  cases hs.names with
  | bind placed =>
    obtain ⟨-, -, tree, -, rfl⟩ := place_ok placed
    exact h.congr rfl rfl rfl
  | @declare path d t s₁ placed _ inside =>
    obtain ⟨-, -, tree, -, rfl⟩ := place_ok placed
    have h₁ : EmbedsInStep { s with tree := tree } := h.congr rfl rfl rfl
    refine h₁.adopt (fun other ho hne => ?_) fun child hk => ?_
    · have declares : ∀ {p}, p = path ∨ p ∈ Table.keys s.fields →
          Declares (Schema.adopt { s with tree := tree } path t) p := fun hp => by
        refine .inl ((Table.contains_iff_mem_keys _ _).2 ?_)
        rw [adopt_fields]
        exact Table.mem_keys_insert.2 hp
      exact ⟨order'.not_below (declares (.inr ho)) (declares (.inl rfl)),
        order'.not_below (declares (.inl rfl)) (declares (.inr ho))⟩
    · obtain ⟨built, -, inStep⟩ := inside child (by
        simp [FieldType.schemas_eq, hk, FieldKind.schemas])
      exact ⟨built.orderly, inStep.distinct⟩
  | openGroup free => exact h.congr rfl rfl rfl
  | declareVirtual options new placed => exact h.congr rfl rfl rfl
  | extendVirtual known => exact h.congr rfl rfl rfl
  | other same => exact h.congr same.fields same.embeddedFields same.embeddedGroups

theorem Built.embedsInStep (hs : Built s) : EmbedsInStep s :=
  (hs.induct (P := fun s => Coherent s ∧ EmbedsInStep s) (fun o => ⟨.empty o, .empty o⟩)
    fun _ _ st h => ⟨h.1.step st, h.2.step h.1 st⟩).2

/-! ### Below an embedded schema -/

variable {path name : String} {t : FieldType δ} {child : Schema δ}

/-- A path below an embedded schema stands for what its rest stands for in that schema. -/
theorem Built.meaning_below (hs : Built s) (field : Table.get? s.fields path = some t)
    (kind : t.kind = .embedded child) (plain : Path.isPositional path = false)
    (start : (Path.segments name).head?.any Path.isPosition = false) :
    s.meaning (Path.below path name) = child.meaning name := by
  have order := hs.orderly
  have copy := hs.embedsInStep.copies field kind
  have known : path ∈ Table.keys s.fields := Table.mem_keys.2 ⟨t, Table.mem_of_get? field⟩
  -- nothing is declared below a field, so only the copy is found there
  have declared : ∀ q, s.declared? (Path.below path q) = child.declared? q := fun q => by
    have unknown : Path.below path q ∉ Table.keys s.fields := fun hm =>
      order.not_field_of_below known (Path.isBelow_below path q)
        (.inl ((Table.contains_iff_mem_keys _ _).2 hm))
    rw [declared?, Table.get?_eq_none_of_not_mem unknown, Option.none_or, copy.fields]
  have group : s.hasGroup (Path.below path name) = child.hasGroup name := by
    have free := order.not_group_of_below known (Path.isBelow_below path name)
    rw [Bool.eq_iff_iff, hasGroup_iff, hasGroup_iff, ← copy.groups name]
    exact ⟨fun h => h.resolve_left free, .inr⟩
  obtain ⟨head, rest, steps, below⟩ := Path.steps_below plain start
  rw [meaning, meaning, declared, group, Path.isPositional_below plain start, traceFrom, traceFrom,
    steps, below]
  dsimp only
  rw [declared]

/-- Below an embedded schema, a look-up finds the field that it finds in that schema, and a group
where that schema has one. -/
theorem lookup_below_embedded (hs : Built s) (field : Table.get? s.fields path = some t)
    (kind : t.kind = .embedded child) (plain : Path.isPositional path = false)
    (start : (Path.segments name).head?.any Path.isPosition = false) :
    (∀ t', (s.lookup (Path.below path name)).2 = .field t' ↔ (child.lookup name).2 = .field t') ∧
      ((s.classify (Path.below path name)).2 = .nested ↔ (child.classify name).2 = .nested) := by
  have order := hs.orderly
  have inside : Built child := hs.inside (path, t)
    (List.mem_append_left _ (Table.mem_of_get? field)) child
    (by simp [FieldType.schemas_eq, kind, FieldKind.schemas])
  have known : path ∈ Table.keys s.fields := Table.mem_keys.2 ⟨t, Table.mem_of_get? field⟩
  have noVirtual : Table.contains s.virtuals (Path.below path name) = false := by
    rw [Bool.eq_false_iff]
    exact fun hv => order.not_field_of_below known (Path.isBelow_below path name) (.inr hv)
  have same := hs.meaning_below field kind plain start
  constructor
  · intro t'
    rw [hs.lookup_snd, inside.lookup_snd, same]
  · rw [hs.classify_snd, inside.classify_snd, noVirtual, same]
    cases hv : Table.contains child.virtuals name with
    | false => rfl
    | true =>
      rw [inside.meaning_of_virtual hv]
      simp [Located.pathClass]

def townDefinition : Definition MemoryDocument :=
  .object [("shops", .array [.object [("name", .literal (.str "String"))]]),
    ("mayor", .object [("name", .literal (.str "String"))])]

/-- Whether a schema finds the names of the shops of a town, and its mayor as a group. -/
def isTown (s : Schema MemoryDocument) : Bool :=
  (match (s.lookup "shops.0.name").2 with
    | .field _ => true
    | _ => false) && decide ((s.classify "mayor").2 = .nested)

theorem lookup_below_embedded_home : ∃ town person : Schema MemoryDocument,
    compile {} townDefinition = .ok town ∧
      compile {} (.object [("home", .schema town)]) = .ok person ∧
      (∃ t, (person.lookup "home.shops.0.name").2 = .field t) ∧
      (person.classify "home.mayor").2 = .nested := by
  have h : ((compile {} townDefinition).toOption.any fun town =>
      (compile {} (.object [("home", .schema town)])).toOption.any fun person =>
        (Table.get? person.fields "home").any fun t =>
          decide (t.kind.name = "embedded-document") && t.schema?.any isTown) = true := by
    decide +kernel
  obtain ⟨town, ht, h⟩ := exists_ok_of_any h
  obtain ⟨person, hp, h⟩ := exists_ok_of_any h
  obtain ⟨t, field, found⟩ := (Option.any_eq_true _ _).1 h
  have builtTown : Built town := .compile (by simp [townDefinition, Definition.schemas,
    Definition.fieldSchemas, Definition.itemSchemas]) ht
  have built : Built person := .compile (by simpa [Definition.schemas,
    Definition.fieldSchemas] using builtTown) hp
  obtain ⟨isEmbedded, found⟩ := Bool.and_eq_true_iff.1 found
  rw [FieldType.schema?] at found
  cases kind : t.kind with
  | embedded child =>
    rw [kind] at found
    obtain ⟨shops, mayor⟩ := Bool.and_eq_true_iff.1 found
    have plain : Path.isPositional "home" = false := by decide
    have shopsStart : (Path.segments "shops.0.name").head?.any Path.isPosition = false := by decide
    have mayorStart : (Path.segments "mayor").head?.any Path.isPosition = false := by decide
    have names := lookup_below_embedded built field kind plain shopsStart
    have group := lookup_below_embedded built field kind plain mayorStart
    refine ⟨town, person, ht, hp, ?_, group.2.2 (of_decide_eq_true mayor)⟩
    cases hl : (child.lookup "shops.0.name").2 with
    | field t' => exact ⟨t', (names.1 t').2 hl⟩
    | group => rw [hl] at shops; cases shops
    | notFound => rw [hl] at shops; cases shops
  | scalar s => rw [kind] at found; cases found
  | mixed => rw [kind] at found; cases found
  | documents c => rw [kind] at isEmbedded; cases isEmbedded
  | array e => rw [kind] at found; cases found

end DocSchema.Schema
