import DocSchema.Proofs.Schema.Names
import DocSchema.Proofs.Schema.Places

/-!
# Schemas and their trees

The tree of a compiled schema says what its fields are: the schema has a field where the tree has
one, and the field has the type of the definition that stands there (`Mirrors`). What is added after
the entries were declared, the identifier and the times, keeps it so (`Addition`).

A group of an object holds nothing under the type key. In the tree of a schema this holds of every
branch, but for those that lead to the name of a time with dots (`Grouped`).
-/

namespace DocSchema

open Definition

variable {δ : Type} {o : Options} {Q : Definition δ → Prop} {s s' : Schema δ}

namespace Schema

/-! ### Additions -/

theorem options_registerAll {es : List (TypedEntry δ)} (run : s.registerAll es = (s', .ok ())) :
    s'.options = s.options := by
  have kept := options_fst_registerAll s es
  rwa [run] at kept

/-- What declaring the virtual of the identifier does to a schema. -/
structure ShowsId (s s' : Schema δ) : Prop where
  options : s'.options = s.options
  fields : s'.fields = s.fields
  groups : s'.groups = s.groups
  indexes : s'.ownIndexes = s.ownIndexes
  tree : s'.tree = s.tree ∨ Tree.insertVirtual ["id"] s.tree = .ok s'.tree

theorem showsId_addIdVirtual (run : s.addIdVirtual = (s', .ok ())) : ShowsId s s' := by
  have one : Path.segments "id" = ["id"] := by decide
  unfold addIdVirtual extendVirtual Schema.virtual at run
  rw [one] at run
  split at run
  · cases hv : Table.get? s.virtuals "id" with
    | some v =>
      rw [hv] at run
      cases run
      exact ⟨rfl, rfl, rfl, rfl, .inl rfl⟩
    | none =>
      rw [hv] at run
      cases hi : Tree.insertVirtual ["id"] s.tree with
      | error blocking =>
        rw [hi] at run
        cases run
      | ok tree =>
        rw [hi] at run
        cases run
        exact ⟨rfl, rfl, rfl, rfl, .inr hi⟩
  · cases run
    exact ⟨rfl, rfl, rfl, rfl, .inl rfl⟩

variable [Document δ]

/-- One step by which a schema is completed once its entries are declared. -/
inductive Addition (o : Options) (s : Schema δ) : Schema δ → Prop where
  | identifier {s' : Schema δ} (run : s.register (.field "_id" (idDefinition o.typeKey)
      ((idDefinition o.typeKey).typeAt o "_id")) = (s', .ok ())) : Addition o s s'
  | virtual {s' : Schema δ} (run : s.addIdVirtual = (s', .ok ())) : Addition o s s'
  | time {s' : Schema δ} {created updated path : String}
      (names : o.timestamps.fields? = some (created, updated))
      (either : path = created ∨ path = updated)
      (run : s.register (.field path (.type (.scalar .date))
        ((Definition.type (.scalar .date) : Definition δ).typeAt o path)) = (s', .ok ())) :
      Addition o s s'
  | other {s' : Schema δ} (same : SameNames s s') (options : s'.options = s.options)
      (indexes : s'.ownIndexes = s.ownIndexes) : Addition o s s'

abbrev Additions (o : Options) : Schema δ → Schema δ → Prop := Relation.ReflTransGen (Addition o)

/-- What every addition keeps, any number of them keeps. -/
theorem Additions.keep {P : Schema δ → Prop} (step : ∀ s s', Addition o s s' → P s → P s')
    (h : Additions o s s') (hs : P s) : P s' := by
  induction h with
  | refl => exact hs
  | tail _ last ih => exact step _ _ last ih

theorem Addition.options (h : Addition o s s') : s'.options = s.options := by
  cases h with
  | identifier run => exact (grown_register run).1.options
  | virtual run => exact (showsId_addIdVirtual run).options
  | time _ _ run => exact (grown_register run).1.options
  | other _ options _ => exact options

theorem additions_addIdField (options : s.options = o) (run : s.addIdField = (s', .ok ())) :
    Additions o s s' := by
  rw [addIdField_eq, options] at run
  split at run
  · exact .single (.identifier run)
  · cases run
    exact .refl

theorem options_addIdField (run : s.addIdField = (s', .ok ())) : s'.options = s.options :=
  Additions.keep (P := fun s' => s'.options = s.options) (fun _ _ h => h.options.trans)
    (additions_addIdField rfl run) rfl

/-- Nothing changes the options until the times are added. -/
theorem options_shown {es : List (TypedEntry δ)} {s₁ s₂ s₃ : Schema δ}
    (declared : (empty o).registerAll es = (s₁, .ok ()))
    (identified : s₁.addIdField = (s₂, .ok ())) (shown : s₂.addIdVirtual = (s₃, .ok ())) :
    s₃.options = o :=
  calc s₃.options = s₂.options := (showsId_addIdVirtual shown).options
    _ = s₁.options := options_addIdField identified
    _ = o := options_registerAll declared

theorem additions_times {created updated : String}
    (names : o.timestamps.fields? = some (created, updated)) :
    ∀ {paths : List String} {s : Schema δ}, (∀ p ∈ paths, p = created ∨ p = updated) →
      s.registerAll (paths.map (dateEntry o.typeKey)) = (s', .ok ()) → Additions o s s'
  | [], s, _, run => by
    cases run
    exact .refl
  | path :: paths, s, either, run => by
    rw [List.map_cons, registerAll, dateEntry_eq] at run
    split at run
    · next s₁ _ first =>
      exact .head (.time names (either path List.mem_cons_self) first)
        (additions_times names (fun p hp => either p (List.mem_cons_of_mem _ hp)) run)
    · cases run

theorem additions_addStampFields (options : s.options = o)
    (run : s.addStampFields = (s', .ok ())) : Additions o s s' := by
  rw [addStampFields, options] at run
  cases names : o.timestamps.fields? with
  | none =>
    rw [names] at run
    cases run
    exact .refl
  | some times =>
    obtain ⟨created, updated⟩ := times
    rw [names] at run
    exact additions_times names (fun _ hp => mem_stampPaths hp) run

theorem addition_addBuiltIn : Addition o s s.addBuiltIn :=
  .other ⟨rfl, rfl, rfl, rfl, rfl, rfl⟩ rfl rfl

theorem addition_addStampHook : Addition o s s.addStampHook :=
  .other (sameNames_addStampHook s) (by unfold addStampHook; split <;> rfl)
    (by unfold addStampHook; split <;> rfl)

/-- A schema is assembled by declaring the entries and by additions. -/
theorem additions_assemble {es : List (TypedEntry δ)} (run : assemble o es = .ok s) :
    ∃ s₁, (empty o).registerAll es = (s₁, .ok ()) ∧ Additions o s₁ s := by
  obtain ⟨s₁, s₂, s₃, s₄, declared, identified, shown, stamped, rfl⟩ := assemble_ok.1 run
  have options : s₃.options = o := options_shown declared identified shown
  refine ⟨s₁, declared, ?_⟩
  calc Additions o s₁ s₂ := additions_addIdField (options_registerAll declared) identified
    Additions o _ s₃ := .single (.virtual shown)
    Additions o _ s₃.addBuiltIn := .single addition_addBuiltIn
    Additions o _ s₄ := additions_addStampFields options stamped
    Additions o _ s₄.addStampHook := .single addition_addStampHook

theorem grown_times : ∀ {paths : List String} {s : Schema δ},
    s.registerAll (paths.map (dateEntry o.typeKey)) = (s', .ok ()) →
      Grown s s' ∧ ∀ p ∈ paths, Table.contains s'.fields p = true
  | [], s, run => by
    cases run
    exact ⟨⟨rfl, rfl, fun _ => id⟩, by simp⟩
  | path :: paths, s, run => by
    rw [List.map_cons, registerAll, dateEntry_eq] at run
    split at run
    · next s₁ _ first =>
      obtain ⟨grown, known⟩ := grown_register first
      obtain ⟨grown', others⟩ := grown_times run
      refine ⟨grown.trans grown', fun p hp => ?_⟩
      rcases List.mem_cons.1 hp with rfl | hp
      · exact grown'.fields p known
      · exact others p hp
    · cases run

/-- The times are fields in the end, if times are kept. -/
theorem times_assemble {es : List (TypedEntry δ)} (run : assemble o es = .ok s)
    {created updated : String} (names : o.timestamps.fields? = some (created, updated)) :
    Table.contains s.fields created = true ∧ Table.contains s.fields updated = true := by
  obtain ⟨s₁, s₂, s₃, s₄, declared, identified, shown, stamped, rfl⟩ := assemble_ok.1 run
  have options : s₃.options = o := options_shown declared identified shown
  have builtIn : s₃.addBuiltIn.options = o := options
  rw [addStampFields, builtIn, names] at stamped
  obtain ⟨grown, known⟩ := grown_times stamped
  rw [(sameNames_addStampHook s₄).fields]
  unfold stampPaths at known
  split at known
  · next old => exact ⟨grown.fields created old, known updated List.mem_cons_self⟩
  · exact ⟨known created (mem_addName.2 (.inl rfl)),
      known updated (mem_addName.2 (.inr List.mem_cons_self))⟩

end Schema

/-! ### The fields of a schema and its tree -/

section

variable [Document δ]

/-- Whether an entry comes with the type of its definition, and the definition has a property. -/
def Schema.Faithful (o : Options) (Q : Definition δ → Prop) : Schema.TypedEntry δ → Prop
  | .field path d given => given = d.typeAt o path ∧ Q d
  | _ => True

/-- A leaf is accepted by itself if it is given, its name is allowed and its type is known. -/
theorem Node.accepted_iff {names : List String} {d : Definition δ} :
    (Node.leaf names d).error? o = none ↔ d ≠ .literal .null ∧ d ≠ .array [.literal .null] ∧
      Path.isReserved (Path.join names) = false ∧ ∃ t, d.typeAt o (Path.join names) = .ok t := by
  by_cases isNull : d = .literal .null
  · subst isNull
    simp [Node.error?]
  · by_cases holdsNull : d = .array [.literal .null]
    · subst holdsNull
      simp [Node.error?]
    · rw [Node.error?]
      · cases Path.isReserved (Path.join names) <;>
          cases d.typeAt o (Path.join names) <;> simp [isNull, holdsNull]
      · exact isNull
      · exact holdsNull

/-- The nodes of an object come with the types of their definitions. -/
theorem Schema.faithful_nodes {ns : List (Node δ)} (h : ∀ names d, Node.leaf names d ∈ ns → Q d) :
    ∀ e ∈ ns.map (Node.typed o), Schema.Faithful o Q e := by
  intro e he
  obtain ⟨n, hn, rfl⟩ := List.mem_map.1 he
  cases n with
  | group names => trivial
  | leaf names d =>
    rcases Node.leaf_cases o names d with ⟨h', -⟩ | ⟨h', -⟩ | ⟨h', -⟩
    · rw [h']
      trivial
    · rw [h']
      trivial
    · rw [h']
      exact ⟨rfl, h names d hn⟩

/-- A schema whose fields are those of its tree, with the types of the definitions there. -/
structure Mirrors (o : Options) (Q : Definition δ → Prop) (s : Schema δ) : Prop where
  options : s.options = o
  coherent : s.Coherent
  sound : Tree.SoundRoot s.tree
  node : ∀ {names d}, Tree.get? names s.tree = some (.field d) → Q d ∧
    ∃ path t, Path.segments path = names ∧ Table.get? s.fields path = some t ∧
      d.typeAt o path = .ok t
  indexes : s.ownIndexes = []

namespace Mirrors

theorem empty (o : Options) : Mirrors o Q (Schema.empty o : Schema δ) where
  options := rfl
  coherent := .empty o
  sound := Tree.soundRoot_nil
  node h := by simp [Schema.empty, Tree.get?_empty] at h
  indexes := rfl

/-- The type of a field is that of the definition at its place. -/
theorem field (h : Mirrors o Q s) {path : String} {t : FieldType δ}
    (ht : Table.get? s.fields path = some t) :
    ∃ d, Tree.get? (Path.segments path) s.tree = some (.field d) ∧ Q d ∧ d.typeAt o path = .ok t := by
  obtain ⟨d, hd⟩ := h.coherent.field_node ((Table.contains_iff_get? _ _).2 ⟨t, ht⟩)
  obtain ⟨hQ, path', t', same, ht', typed⟩ := h.node hd
  obtain rfl := Path.segments_injective same
  obtain rfl := Option.some.inj (ht.symm.trans ht')
  exact ⟨d, hd, hQ, typed⟩

theorem congr (h : Mirrors o Q s) (same : Schema.SameNames s s') (options : s'.options = s.options)
    (indexes : s'.ownIndexes = s.ownIndexes) : Mirrors o Q s' where
  options := options.trans h.options
  coherent := h.coherent.congr same
  sound := same.tree ▸ h.sound
  node := by
    rw [same.tree, same.fields]
    exact h.node
  indexes := indexes.trans h.indexes

/-- Declaring a field keeps fields and tree in step. -/
theorem registerField (h : Mirrors o Q s) {path : String} {d : Definition δ} (hd : Q d)
    (run : s.register (.field path d (d.typeAt o path)) = (s', .ok ())) : Mirrors o Q s' := by
  obtain ⟨bound, t, placed, typed, rfl⟩ := Schema.register_field_ok.1 run
  have coherent : Schema.Coherent (bound.adopt path t) :=
    h.coherent.step (R := fun _ => True) (.declare placed (by rwa [h.options]) fun _ _ => trivial)
  obtain ⟨-, -, tree, inserted, rfl⟩ := Schema.place_ok placed
  have put := Tree.insertField_placed (Path.segments_ne_nil path) inserted
  refine ⟨?_, coherent, ?_, fun {names x} hx => ?_, ?_⟩
  · rw [Schema.options_adopt]
    exact h.options
  · rw [Schema.adopt_tree]
    exact h.sound.insertField (Path.segments_ne_nil path) inserted
  · rw [Schema.adopt_tree] at hx
    rw [Schema.adopt_fields]
    by_cases he : names = Path.segments path
    · subst he
      cases put.self.symm.trans hx
      exact ⟨hd, path, t, rfl, Table.get?_insert_self _ _ _, typed⟩
    · obtain ⟨hQ, p, t', rfl, ht', typed'⟩ := h.node (put.leaf_was_there rfl rfl he hx)
      have other : p ≠ path := fun hp => he (congrArg Path.segments hp)
      exact ⟨hQ, p, t', rfl, by rwa [Table.get?_insert_of_ne _ _ other], typed'⟩
  · unfold Schema.adopt
    split <;> exact h.indexes

theorem register (h : Mirrors o Q s) {e : Schema.TypedEntry δ} (he : Schema.Faithful o Q e)
    (run : s.register e = (s', .ok ())) : Mirrors o Q s' := by
  cases e with
  | missing path => cases run
  | missingItem path => cases run
  | group path =>
    rw [Schema.register] at run
    split at run
    · cases run
    · next free =>
      cases run
      exact { h with coherent := h.coherent.openGroup ((Table.get?_eq_none_iff _ _).1 free) }
  | field path d given =>
    obtain ⟨rfl, hd⟩ := he
    exact h.registerField hd run

theorem registerAll : ∀ {es : List (Schema.TypedEntry δ)} {s : Schema δ}, Mirrors o Q s →
    (∀ e ∈ es, Schema.Faithful o Q e) → s.registerAll es = (s', .ok ()) → Mirrors o Q s'
  | [], s, h, _, run => by
    cases run
    exact h
  | e :: es, s, h, faithful, run => by
    rw [Schema.registerAll] at run
    split at run
    · next s₁ _ first =>
      exact registerAll (h.register (faithful e List.mem_cons_self) first)
        (fun e he => faithful e (List.mem_cons_of_mem _ he)) run
    · cases run

/-- Every addition keeps fields and tree in step. -/
theorem addition (identifier : Q (Schema.idDefinition o.typeKey)) (date : Q (.type (.scalar .date)))
    (step : Schema.Addition o s s') (h : Mirrors o Q s) : Mirrors o Q s' := by
  cases step with
  | identifier run => exact h.registerField identifier run
  | time _ _ run => exact h.registerField date run
  | other same options indexes => exact h.congr same options indexes
  | virtual run =>
    have shows := Schema.showsId_addIdVirtual run
    have coherent : s'.Coherent := by
      have steps := Schema.steps_addIdVirtual (R := fun _ => True) (s := s)
      rw [run] at steps
      exact h.coherent.steps steps
    refine ⟨shows.options.trans h.options, coherent, ?_, fun {names d} hd => ?_,
      shows.indexes.trans h.indexes⟩
    · rcases shows.tree with same | inserted
      · exact same ▸ h.sound
      · exact h.sound.insertVirtual (by simp) inserted
    · rw [shows.fields]
      rcases shows.tree with same | inserted
      · exact h.node (same ▸ hd)
      · have put := Tree.insertVirtual_placed (by simp) inserted
        refine h.node (put.leaf_was_there rfl rfl (fun he => ?_) hd)
        rw [he, put.self] at hd
        cases hd

/-- What is compiled from entries has the fields of its tree. -/
theorem assemble {es : List (Schema.TypedEntry δ)} (faithful : ∀ e ∈ es, Schema.Faithful o Q e)
    (identifier : Q (Schema.idDefinition o.typeKey)) (date : Q (.type (.scalar .date)))
    (run : Schema.assemble o es = .ok s) : Mirrors o Q s := by
  obtain ⟨s₁, declared, additions⟩ := Schema.additions_assemble run
  exact additions.keep (fun _ _ => addition identifier date)
    (registerAll (.empty o) faithful declared)

end Mirrors

end

/-! ### Branches -/

/-- A tree in which what stands under the type key of a branch is unset, unless the branch leads to
a time. -/
def Grouped (o : Options) (s : Schema δ) : Prop :=
  ∀ names inner, names ≠ [] → Tree.get? names s.tree = some (.branch inner) →
    (∀ x, Table.get? inner o.typeKey = some x → ∃ d, x = .field d ∧ d.isUnset = true) ∨
      ∃ created updated path rest, o.timestamps.fields? = some (created, updated) ∧
        (path = created ∨ path = updated) ∧ rest ≠ [] ∧ names ++ rest = Path.segments path

namespace Grouped

/-- A leaf that is put into the tree keeps what is known of the branches, if the branches above it
may be there. -/
theorem placed (h : Grouped o s) {segments : List String} {x : Tree (Definition δ)}
    (leaf : x.isBranch = false) (put : Tree.Placed segments x s.tree s'.tree)
    (above : ∀ names rest, names ≠ [] → rest ≠ [] → names ++ rest = segments →
      ∃ created updated path, o.timestamps.fields? = some (created, updated) ∧
        (path = created ∨ path = updated) ∧ Path.segments path = segments) : Grouped o s' := by
  intro names inner hn hi
  refine Tree.Placed.cases_on segments names ?_ ?_ ?_ ?_
  · rintro rfl
    rw [put.self] at hi
    cases hi
    cases leaf
  · intro rest hr he
    obtain ⟨created, updated, path, times, either, same⟩ := above names rest hn hr he
    exact .inr ⟨created, updated, path, rest, times, either, hr, he.trans same.symm⟩
  · rintro rest hr rfl
    rw [Tree.get?_below_leaf leaf put.self hr] at hi
    cases hi
  · intro hp hs
    rw [put.apart names hp hs] at hi
    exact h names inner hn hi

variable [Document δ]

theorem of_declares {fields : List (String × Definition δ)} (h : Declares o fields s) :
    Grouped o s := by
  intro names inner _ hi
  rw [h.tree] at hi
  obtain ⟨group, isGroup, rfl⟩ := group_of_branch names fields hi
  exact .inl fun x hx => unset_of_isGroup isGroup hx

theorem addition (step : Schema.Addition o s s') (h : Grouped o s) : Grouped o s' := by
  have top {name : String} : ∀ names rest : List String, names ≠ [] → rest ≠ [] →
      names ++ rest ≠ [name] := by
    intro names rest hn hr he
    rcases List.append_eq_singleton_iff.1 he with ⟨h, -⟩ | ⟨-, h⟩
    · exact hn h
    · exact hr h
  have field {path : String} {d : Definition δ}
      (run : s.register (.field path d (d.typeAt o path)) = (s', .ok ())) :
      Tree.Placed (Path.segments path) (.field d) s.tree s'.tree := by
    obtain ⟨bound, t, placed, -, rfl⟩ := Schema.register_field_ok.1 run
    obtain ⟨-, -, tree, inserted, rfl⟩ := Schema.place_ok placed
    rw [Schema.adopt_tree]
    exact Tree.insertField_placed (Path.segments_ne_nil path) inserted
  cases step with
  | identifier run =>
    refine h.placed rfl (field run) fun names rest hn hr he => ?_
    have one : Path.segments "_id" = ["_id"] := by decide
    exact absurd (he.trans one) (top names rest hn hr)
  | @time created updated path times either run =>
    exact h.placed rfl (field run) fun _ _ _ _ _ => ⟨created, updated, path, times, either, rfl⟩
  | other same _ _ =>
    intro names inner
    rw [same.tree]
    exact h names inner
  | virtual run =>
    rcases (Schema.showsId_addIdVirtual run).tree with same | inserted
    · intro names inner
      rw [same]
      exact h names inner
    · have put := Tree.insertVirtual_placed (by simp) inserted
      exact h.placed rfl put fun names rest hn hr he => absurd he (top names rest hn hr)

/-- The branches of what is compiled from an object are its groups, or lead to times. -/
theorem compile {fields : List (String × Definition δ)} (plain : PlainKeys o.typeKey fields)
    (run : Schema.compile o (.object fields) = .ok s) : Grouped o s := by
  rw [Schema.compile_object] at run
  obtain ⟨s₁, declared, additions⟩ := Schema.additions_assemble run
  exact additions.keep (fun _ _ => addition) (of_declares (.of_registerAll plain declared))

end Grouped

end DocSchema
