import DocSchema.Proofs.Schema.Mirror
import DocSchema.Proofs.Schema.Shapes
import DocSchema.Proofs.Schema.TreeForms

/-!
# Two schemas in step

Two schemas are twins if they have the same names, compatible fields and trees that are alike. Every
step by which a schema is completed finds the same names taken in both and can be taken in both, and
it leaves twins behind. So where one schema can be completed the other one can (`Twin.assemble`).
-/

namespace DocSchema

open Definition

variable {δ : Type} {o : Options} {s s' s₁ : Schema δ}

/-- Two schemas with the same names, compatible fields and trees that are alike. -/
structure Twin (o : Options) (s s' : Schema δ) : Prop where
  options : s.options = o
  options' : s'.options = o
  fields : ∀ path, Option.Rel FieldType.Compatible (Table.get? s.fields path)
    (Table.get? s'.fields path)
  groups : ∀ path, path ∈ s.groups ↔ path ∈ s'.groups
  virtuals : ∀ path, Table.contains s.virtuals path = Table.contains s'.virtuals path
  tree : Tree.Alike SameForm (.branch s.tree) (.branch s'.tree)

namespace Twin

theorem contains_fields (h : Twin o s s') (path : String) :
    Table.contains s.fields path = Table.contains s'.fields path :=
  isSome_of_rel (h.fields path)

theorem contains_groups (h : Twin o s s') (path : String) :
    s.groups.contains path = s'.groups.contains path := by
  rw [Bool.eq_iff_iff, List.contains_iff_mem, List.contains_iff_mem]
  exact h.groups path

theorem isTaken (h : Twin o s s') (path : String) : s.isTaken path = s'.isTaken path := by
  have here := h.tree.get? (Path.segments path)
  rw [Schema.isTaken, Schema.isTaken, h.contains_groups, h.virtuals]
  cases hx : Tree.get? (Path.segments path) s.tree with
  | none =>
    rw [hx] at here
    rw [eq_none_of_rel here]
  | some x =>
    rw [hx] at here
    obtain ⟨x', hx', alike⟩ := exists_of_rel here
    rw [hx']
    cases alike <;> rfl

/-- A definition can be bound to the same path in both, also where the order of its keys differs. -/
theorem place (h : Twin o s s') {path : String} {d d' : Definition δ} (same : d.form = d'.form)
    (placed : s.place path d = .ok s₁) : ∃ s₁', s'.place path d' = .ok s₁' ∧ Twin o s₁ s₁' := by
  obtain ⟨allowed, free, tree, inserted, rfl⟩ := Schema.place_ok placed
  obtain ⟨tree', inserted', alike⟩ := h.tree.insertField same inserted
  refine ⟨{ s' with tree := tree' }, ?_, { h with tree := alike }⟩
  rw [Schema.place, allowed, ← h.isTaken, free, inserted']
  rfl

theorem adopt (h : Twin o s s') (path : String) {t t' : FieldType δ} (compatible : t.Compatible t') :
    Twin o (s.adopt path t) (s'.adopt path t') := by
  refine ⟨?_, ?_, fun p => ?_, fun p => ?_, fun p => ?_, ?_⟩
  · rw [Schema.options_adopt, h.options]
  · rw [Schema.options_adopt, h.options']
  · rw [Schema.adopt_fields, Schema.adopt_fields]
    by_cases hp : p = path
    · subst hp
      rw [Table.get?_insert_self, Table.get?_insert_self]
      exact .some compatible
    · rw [Table.get?_insert_of_ne _ _ hp, Table.get?_insert_of_ne _ _ hp]
      exact h.fields p
  · rw [Schema.adopt_groups, Schema.adopt_groups]
    exact h.groups p
  · rw [Schema.adopt_virtuals, Schema.adopt_virtuals]
    exact h.virtuals p
  · rw [Schema.adopt_tree, Schema.adopt_tree]
    exact h.tree

/-- One field is declared in both. -/
theorem register (h : Twin o s s') {path : String} {d : Definition δ}
    {given : Except SchemaError (FieldType δ)}
    (run : s.register (.field path d given) = (s₁, .ok ())) :
    ∃ s₁', s'.register (.field path d given) = (s₁', .ok ()) ∧ Twin o s₁ s₁' := by
  obtain ⟨bound, t, placed, rfl, rfl⟩ := Schema.register_field_ok.1 run
  obtain ⟨bound', placed', twin⟩ := h.place rfl placed
  exact ⟨_, Schema.register_field_ok.2 ⟨bound', t, placed', rfl, rfl⟩, twin.adopt path (.refl t)⟩

theorem storeVirtual (h : Twin o s s') (path : String) (v v' : Virtual) :
    Twin o { s with virtuals := Table.insert s.virtuals path v }
      { s' with virtuals := Table.insert s'.virtuals path v' } := by
  refine { h with virtuals := fun p => ?_ }
  rw [Table.contains_insert, Table.contains_insert, h.virtuals p]

/-- The virtual of the identifier is declared in both. -/
theorem addIdVirtual (h : Twin o s s') (run : s.addIdVirtual = (s₁, .ok ())) :
    ∃ s₁', s'.addIdVirtual = (s₁', .ok ()) ∧ Twin o s₁ s₁' := by
  have free : (Tree.get? ["id"] s.tree).isNone = (Tree.get? ["id"] s'.tree).isNone := by
    rw [← Option.not_isSome, ← Option.not_isSome, isSome_of_rel (h.tree.get? ["id"])]
  unfold Schema.addIdVirtual at run ⊢
  rw [h.options, free] at run
  rw [h.options']
  split at run
  · next wanted =>
    rw [if_pos wanted]
    unfold Schema.extendVirtual Schema.virtual at run ⊢
    have known := h.virtuals "id"
    unfold Table.contains at known
    cases hv : Table.get? s.virtuals "id" with
    | some v =>
      rw [hv, Option.isSome_some, eq_comm, Option.isSome_iff_exists] at known
      obtain ⟨v', hv'⟩ := known
      rw [hv] at run
      rw [hv']
      cases run
      exact ⟨_, rfl, h.storeVirtual _ _ _⟩
    | none =>
      rw [hv, Option.isSome_none, eq_comm, Option.isSome_eq_false_iff,
        Option.isNone_iff_eq_none] at known
      rw [hv] at run
      rw [known]
      cases inserted : Tree.insertVirtual (Path.segments "id") s.tree with
      | error blocking =>
        rw [inserted] at run
        cases run
      | ok tree =>
        obtain ⟨tree', inserted', alike⟩ := h.tree.insertVirtual inserted
        rw [inserted] at run
        rw [inserted']
        cases run
        have bound : Twin o { s with tree := tree } { s' with tree := tree' } :=
          { h with tree := alike }
        exact ⟨_, rfl, (bound.storeVirtual "id" _ _).storeVirtual "id" _ _⟩
  · next unwanted =>
    cases run
    exact ⟨s', if_neg unwanted, h⟩

theorem congr {s₂ s₂' : Schema δ} (h : Twin o s s') (same : Schema.SameNames s s₂)
    (options : s₂.options = s.options) (same' : Schema.SameNames s' s₂')
    (options' : s₂'.options = s'.options) : Twin o s₂ s₂' where
  options := options.trans h.options
  options' := options'.trans h.options'
  fields := by rw [same.fields, same'.fields]; exact h.fields
  groups := by rw [same.groups, same'.groups]; exact h.groups
  virtuals := by rw [same.virtuals, same'.virtuals]; exact h.virtuals
  tree := by rw [same.tree, same'.tree]; exact h.tree

variable [Document δ]

theorem addIdField (h : Twin o s s') (run : s.addIdField = (s₁, .ok ())) :
    ∃ s₁', s'.addIdField = (s₁', .ok ()) ∧ Twin o s₁ s₁' := by
  have lacks : s.lacksId = s'.lacksId := by
    rw [Schema.lacksId, Schema.lacksId, h.options, h.options', h.contains_fields, h.contains_groups]
  rw [Schema.addIdField_eq, h.options, lacks] at run
  rw [Schema.addIdField_eq, h.options']
  split at run
  · next missing =>
    rw [if_pos missing]
    exact h.register run
  · next there =>
    cases run
    exact ⟨s', if_neg there, h⟩

theorem registerTimes : ∀ {paths : List String} {s s' : Schema δ}, Twin o s s' →
    s.registerAll (paths.map (Schema.dateEntry o.typeKey)) = (s₁, .ok ()) →
      ∃ s₁', s'.registerAll (paths.map (Schema.dateEntry o.typeKey)) = (s₁', .ok ()) ∧
        Twin o s₁ s₁'
  | [], s, s', h, run => by
    cases run
    exact ⟨s', rfl, h⟩
  | path :: paths, s, s', h, run => by
    rw [List.map_cons, Schema.registerAll, Schema.dateEntry_eq] at run
    split at run
    · next s₂ _ first =>
      obtain ⟨s₂', first', twin⟩ := h.register first
      obtain ⟨s₁', others, twin'⟩ := registerTimes twin run
      refine ⟨s₁', ?_, twin'⟩
      rw [List.map_cons, Schema.registerAll, Schema.dateEntry_eq, first']
      exact others
    · cases run

theorem addStampFields (h : Twin o s s') (run : s.addStampFields = (s₁, .ok ())) :
    ∃ s₁', s'.addStampFields = (s₁', .ok ()) ∧ Twin o s₁ s₁' := by
  rw [Schema.addStampFields, h.options] at run
  rw [Schema.addStampFields, h.options']
  cases names : o.timestamps.fields? with
  | none =>
    rw [names] at run
    cases run
    exact ⟨s', rfl, h⟩
  | some times =>
    obtain ⟨created, updated⟩ := times
    rw [names] at run
    have paths : s.stampPaths created updated = s'.stampPaths created updated := by
      rw [Schema.stampPaths, Schema.stampPaths, h.contains_fields]
    dsimp only at run
    rw [paths] at run
    exact h.registerTimes run

/-- Where a schema can be completed, so can its twin. -/
theorem assemble {es es' : List (Schema.TypedEntry δ)}
    (declared : (Schema.empty o).registerAll es = (s, .ok ()))
    (declared' : (Schema.empty o).registerAll es' = (s', .ok ())) (h : Twin o s s')
    (run : Schema.assemble o es = .ok s₁) :
    ∃ s₁', Schema.assemble o es' = .ok s₁' ∧ Twin o s₁ s₁' := by
  obtain ⟨s₀, s₂, s₃, s₄, declared₀, identified, shown, stamped, rfl⟩ := Schema.assemble_ok.1 run
  cases declared.symm.trans declared₀
  obtain ⟨s₂', identified', h₂⟩ := h.addIdField identified
  obtain ⟨s₃', shown', h₃⟩ := h₂.addIdVirtual shown
  have builtIn (s : Schema δ) : Schema.SameNames s s.addBuiltIn := ⟨rfl, rfl, rfl, rfl, rfl, rfl⟩
  obtain ⟨s₄', stamped', h₄⟩ :=
    (h₃.congr (builtIn s₃) rfl (builtIn s₃') rfl).addStampFields stamped
  have options (s : Schema δ) : s.addStampHook.options = s.options := by
    unfold Schema.addStampHook
    split <;> rfl
  exact ⟨s₄'.addStampHook,
    Schema.assemble_ok.2 ⟨s', s₂', s₃', s₄', declared', identified', shown', stamped', rfl⟩,
    h₄.congr (Schema.sameNames_addStampHook s₄) (options s₄) (Schema.sameNames_addStampHook s₄')
      (options s₄')⟩

end Twin

/-! ### Fields of trees that are alike -/

/-- Schemas that mirror trees which are alike have compatible fields, if definitions of one form
have compatible types. -/
theorem Mirrors.fields_rel [Document δ] {Q Q' : Definition δ → Prop} (h : Mirrors o Q s)
    (h' : Mirrors o Q' s')
    (alike : Tree.Alike SameForm (.branch s.tree) (.branch s'.tree))
    (compatible : ∀ {d d' path t t'}, Q d → Q' d' → d.form = d'.form → d.typeAt o path = .ok t →
      d'.typeAt o path = .ok t' → t.Compatible t') (path : String) :
    Option.Rel FieldType.Compatible (Table.get? s.fields path) (Table.get? s'.fields path) := by
  cases ht : Table.get? s.fields path with
  | some t =>
    obtain ⟨d, hd, hQ, typed⟩ := h.field ht
    obtain ⟨d', hd', same⟩ := alike.field_at hd
    obtain ⟨hQ', path', t', samePath, ht', typed'⟩ := h'.node hd'
    obtain rfl := Path.segments_injective samePath
    rw [ht']
    exact .some (compatible hQ hQ' same typed typed')
  | none =>
    cases ht' : Table.get? s'.fields path with
    | none => exact .none
    | some t' =>
      obtain ⟨d', hd', -, -⟩ := h'.field ht'
      obtain ⟨d, hd, -⟩ := alike.symm.field_at hd'
      obtain ⟨-, path', t, samePath, known, -⟩ := h.node hd
      rw [Path.segments_injective samePath, ht] at known
      cases known

end DocSchema
