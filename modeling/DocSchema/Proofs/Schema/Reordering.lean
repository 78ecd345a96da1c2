import DocSchema.Proofs.Schema.Twin
import DocSchema.Schema.Fingerprint

/-!
# The order of keys

Definitions of one form make compatible fields (`typeAt_form`), and objects of one form compile to
twins (`compile_form`). The two go round: the elements of an array may be an object that is compiled
on its own, and what is compiled from an object are the fields of its leaves, which are smaller. A
definition that is not known to make a field has to come from JSON, since an array or an object of
JSON that was not taken apart has the form of a type and is none.
-/

namespace DocSchema

open Definition

variable {δ : Type} {o : Options} {path : String} {d d' x x' : Definition δ}
  {fields fields' : List (String × Definition δ)} {s s' : Schema δ}

/-! ### Leaves -/

namespace Definition

/-- What is declared as one field: a definition that is no group, with simple parts. -/
structure Leaf (typeKey : String) (d : Definition δ) : Prop where
  neat : Neat d
  not_inline : isInline typeKey d = false

theorem leaf_date (typeKey : String) : Leaf typeKey (.type (.scalar .date) : Definition δ) :=
  ⟨⟨rfl, trivial⟩, rfl⟩

theorem leaf_idDefinition (typeKey : String) :
    Leaf typeKey (Schema.idDefinition typeKey : Definition δ) := by
  refine ⟨⟨Table.nodup_keys_insert _ _ _ (by simp [Table.keys]), fun e he => ?_⟩,
    (isField_idDefinition typeKey).not_inline⟩
  rcases Table.mem_insert he with rfl | he
  · exact ⟨rfl, trivial⟩
  · rw [List.mem_singleton.1 he]
    exact ⟨rfl, trivial⟩

theorem Simple.leaf (h : Simple (object fields)) {typeKey : String} {names : List String}
    (hx : Node.leaf names x ∈ nodes typeKey [] fields) : Leaf typeKey x where
  neat := (hereditary_simple.leaf fields (hereditary_simple.field h) hx).neat
  not_inline := not_inline_of_leaf fields hx

end Definition

/-- The tree of a simple object is readable beside any tree, if no leaf is bare. -/
theorem readable_toTree {typeKey : String} (simple : Simple (object fields))
    (root' : Table (Tree (Definition δ)))
    (bare : ∀ names x, Node.leaf names x ∈ nodes typeKey [] fields → x.isBare = false) :
    Readable typeKey (toTree typeKey fields) root' where
  sound := soundRoot_toTree fields simple.plainKeys
  field {names d} hd := by
    have hm := (mem_nodes_iff (.leaf names d) fields simple.plainKeys).2 hd
    exact ⟨(simple.leaf hm).neat, bare names d hm, (simple.leaf hm).not_inline⟩
  branch {names inner} _ hi := by
    obtain ⟨group, isGroup, rfl⟩ := group_of_branch names fields hi
    exact .inr fun x hx => unset_of_isGroup isGroup hx
  virtual hv := absurd hv (no_virtual_toTree fields)

variable [Document δ]

namespace Definition

/-- Whether a definition came from JSON, or makes a field anyway. -/
def Fair (o : Options) (path : String) (d : Definition δ) : Prop :=
  d.IsJson ∨ ∃ t, d.typeAt o path = .ok t

theorem exists_shape_of_typeAt {t : FieldType δ} (h : d.typeAt o path = .ok t) :
    ∃ shape₁, shape o.typeKey path (d.record o.typeKey) = .ok shape₁ := by
  obtain ⟨kind, -, hs | ⟨hs, -⟩ | ⟨x, hs, -⟩⟩ := typeAt_cases h
  · exact ⟨_, hs⟩
  · exact ⟨_, hs⟩
  · exact ⟨_, hs⟩

theorem legible_of_typeAt {t : FieldType δ} (h : d.typeAt o path = .ok t) :
    Legible o.typeKey d := by
  obtain ⟨shape₁, hs⟩ := exists_shape_of_typeAt h
  exact legible_of_shape hs

theorem Fair.legible (h : Fair o path d) : Legible o.typeKey d := by
  rcases h with h | ⟨t, h⟩
  · exact h.legible
  · exact legible_of_typeAt h

theorem not_bare_of_arrayKind {kind : FieldKind δ} (h : arrayKind o path x = .ok kind) :
    x.isBare = false := by
  rcases arrayKind_cases h with ⟨s, rfl, -⟩ | ⟨s, inline, -⟩ | ⟨t, -, typed, -⟩
  · rfl
  · cases x with
    | object fields => rfl
    | _ => cases inline
  · exact (legible_of_typeAt typed).not_bare

end Definition

/-- What is compiled from a simple object has the fields of its tree. -/
theorem Mirrors.compile (simple : Simple (object fields))
    (run : Schema.compile o (object fields) = .ok s) : Mirrors o (Leaf o.typeKey) s := by
  rw [Schema.compile_object] at run
  exact .assemble (Schema.faithful_nodes fun _ _ hx => simple.leaf hx)
    (leaf_idDefinition o.typeKey) (leaf_date o.typeKey) run

/-! ### Objects of one form -/

/-- The types of the definitions up to some size depend on their forms alone. -/
def FormDecides (δ : Type) [Document δ] (o : Options) (n : Nat) : Prop :=
  ∀ {d d' : Definition δ} {path : String} {t : FieldType δ}, sizeOf d ≤ n → d.form = d'.form →
    Neat d → Neat d' → d.typeAt o path = .ok t → Fair o path d' →
      ∃ t', d'.typeAt o path = .ok t' ∧ t.Compatible t'

/-- A leaf is accepted as the leaf of the same form at its place is. -/
theorem Node.accepted_form {names : List String} (decides : FormDecides δ o (sizeOf x))
    (same : x.form = x'.form) (neat : Neat x) (neat' : Neat x') (fair : Fair o (Path.join names) x')
    (accepted : (Node.leaf names x).error? o = none) : (Node.leaf names x').error? o = none := by
  obtain ⟨given, holds, allowed, t, typed⟩ := Node.accepted_iff.1 accepted
  obtain ⟨t', typed', -⟩ := decides (Nat.le_refl _) same neat neat' typed fair
  refine Node.accepted_iff.2 ⟨?_, ?_, allowed, t', typed'⟩
  · rintro rfl
    exact given (eq_null_of_form same)
  · rintro rfl
    exact holds (eq_nullItem_of_form same (legible_of_typeAt typed).not_bare neat.schemas)

/-- Schemas that declare objects with trees that are alike are twins. -/
theorem Twin.of_declares (h : Declares o fields s) (h' : Declares o fields' s')
    (alike : Tree.Alike SameForm (.branch s.tree) (.branch s'.tree))
    (types : ∀ path, Option.Rel FieldType.Compatible (Table.get? s.fields path)
      (Table.get? s'.fields path)) : Twin o s s' := by
  -- a group of one object is a group of the other one, since both are branches
  have group {fields fields' : List (String × Definition δ)} (plain : PlainKeys o.typeKey fields)
      (plain' : PlainKeys o.typeKey fields') {path : String}
      (branches : ∀ names inner, Tree.get? names (toTree o.typeKey fields) = some (.branch inner) →
        ∃ inner', Tree.get? names (toTree o.typeKey fields') = some (.branch inner'))
      (hp : path ∈ groupNames (nodes o.typeKey [] fields)) :
      path ∈ groupNames (nodes o.typeKey [] fields') := by
    obtain ⟨names, hn, rfl⟩ := mem_groupNames hp
    obtain ⟨inner, hi⟩ := (mem_nodes_iff _ fields plain).1 hn
    exact mem_groupNames_of_mem
      ((mem_nodes_iff (.group names) fields' plain').2 (branches names inner hi))
  rw [h.tree, h'.tree] at alike
  refine ⟨h.done.options, h'.done.options, types, fun path => ?_, fun path => ?_, ?_⟩
  · rw [h.done.groups, h'.done.groups]
    exact ⟨group h.plain h'.plain fun _ _ => alike.branch_at,
      group h'.plain h.plain fun _ _ => alike.symm.branch_at⟩
  · rw [h.done.virtuals, h'.done.virtuals]
  · rw [h.tree, h'.tree]
    exact alike

/-- Where an object compiles, so does every fair object of its form, and to a twin. -/
theorem compile_form_of_decides (simple : Simple (object fields))
    (simple' : Simple (object fields')) (same : (object fields).form = (object fields').form)
    (decides : FormDecides δ o (sizeOf (object fields)))
    (fair : ∀ names x, Node.leaf names x ∈ nodes o.typeKey [] fields' → Fair o (Path.join names) x)
    (run : Schema.compile o (object fields) = .ok s) :
    ∃ s', Schema.compile o (object fields') = .ok s' ∧ Twin o s s' := by
  have plain : PlainKeys o.typeKey fields := simple.plainKeys
  have plain' : PlainKeys o.typeKey fields' := simple'.plainKeys
  rw [Schema.compile_object] at run ⊢
  obtain ⟨s₁, _, _, _, declared, -⟩ := Schema.assemble_ok.1 run
  have h₁ := Declares.of_registerAll plain declared
  have small {names : List String} {x : Definition δ}
      (hx : Node.leaf names x ∈ nodes o.typeKey [] fields) : sizeOf x ≤ sizeOf (object fields) :=
    have hereditary := hereditary_sizeOf (sizeOf (object fields))
    hereditary.leaf fields (hereditary.field (Nat.le_refl _)) hx
  -- the leaves of both objects can be read, so their trees are alike
  have alike := alike_of_form
    (readable_toTree simple (toTree o.typeKey fields') fun names x hx => by
      obtain ⟨-, -, -, t, typed⟩ := Node.accepted_iff.1 (h₁.accepted _ hx)
      exact (legible_of_typeAt typed).not_bare)
    (readable_toTree simple' _ fun names x hx => (fair names x hx).legible.not_bare)
    (by rw [treeJson_toTree, treeJson_toTree]; exact same)
  -- so what is declared for one is accepted for the other one
  have accepted' : ∀ n ∈ nodes o.typeKey [] fields', n.error? o = none := by
    intro n hn
    cases n with
    | group names => rfl
    | leaf names x' =>
      obtain ⟨x, hx, sameLeaf⟩ := alike.symm.field_at ((mem_nodes_iff _ fields' plain').1 hn)
      have hm := (mem_nodes_iff (.leaf names x) fields plain).2 hx
      exact Node.accepted_form (fun le => decides (Nat.le_trans le (small hm))) sameLeaf
        (simple.leaf hm).neat (simple'.leaf hn).neat (fair names x' hn) (h₁.accepted _ hm)
  obtain ⟨s₁', declared', h₁'⟩ := Declares.of_accepted plain' accepted'
  have mirrors : Mirrors o (fun x => Neat x ∧ sizeOf x ≤ sizeOf (object fields)) s₁ :=
    .registerAll (.empty o)
      (Schema.faithful_nodes fun _ _ hx => ⟨(simple.leaf hx).neat, small hx⟩) declared
  have mirrors' : Mirrors o Neat s₁' :=
    .registerAll (.empty o) (Schema.faithful_nodes fun _ _ hx => (simple'.leaf hx).neat) declared'
  rw [← h₁.tree, ← h₁'.tree] at alike
  have twin := Twin.of_declares h₁ h₁' alike <|
    mirrors.fields_rel mirrors' alike fun {x x' p t t'} hx hx' same typed typed' => by
      obtain ⟨t'', again, compatible⟩ := decides hx.2 same hx.1 hx' typed (.inr ⟨t', typed'⟩)
      cases typed'.symm.trans again
      exact compatible
  exact twin.assemble declared declared' run

/-- Compiled schemas with compatible fields are compatible. -/
theorem Mirrors.compatible {Q Q' : Definition δ → Prop} (h : Mirrors o Q s) (h' : Mirrors o Q' s')
    (fields : ∀ path, Option.Rel FieldType.Compatible (Table.get? s.fields path)
      (Table.get? s'.fields path)) : s.Compatible s' := by
  refine .intro h.coherent.distinct h'.coherent.distinct (fun p => isSome_of_rel (fields p))
    (fun p t t' ht ht' => ?_) (h.indexes.trans h'.indexes.symm)
  have here := fields p
  rw [ht, ht'] at here
  cases here with
  | some compatible => exact compatible

namespace Definition

/-! ### Types of one form -/

/-- Whether the elements of an array can be read. -/
def FairElement (o : Options) (path : String) (x : Definition δ) : Prop :=
  x.IsJson ∨ ∃ kind, arrayKind o path x = .ok kind

theorem FairElement.not_bare (h : FairElement o path x) : x.isBare = false := by
  rcases h with h | ⟨kind, h⟩
  · exact h.not_bare
  · exact not_bare_of_arrayKind h

/-- The element of an array that a fair definition declares is fair. -/
theorem Fair.element (h : Fair o path d)
    (hs : shape o.typeKey path (d.record o.typeKey) = .ok (.arrayOf x)) : FairElement o path x := by
  rcases h with h | ⟨t, h⟩
  · exact .inl (hereditary_isJson.element (hereditary_isJson.record h) hs)
  · obtain ⟨kind, -, hs' | ⟨hs', -⟩ | ⟨y, hs', hk⟩⟩ := typeAt_cases h
    · cases hs.symm.trans hs'
    · cases hs.symm.trans hs'
    · cases hs.symm.trans hs'
      exact .inr ⟨kind, hk⟩

/-- The leaves of a fair object that stands in an array are fair. -/
theorem FairElement.leaf (h : FairElement o path (object fields))
    (simple : Simple (object fields)) (inline : isInline o.typeKey (object fields) = true)
    {names : List String} (hx : Node.leaf names x ∈ nodes o.forChild.typeKey [] fields) :
    Fair o.forChild (Path.join names) x := by
  rcases h with h | ⟨kind, h⟩
  · exact .inl (hereditary_isJson.leaf fields (hereditary_isJson.field h) hx)
  · rcases arrayKind_cases h with ⟨s, ho, -⟩ | ⟨s, -, run, -⟩ | ⟨t, leaf, -⟩
    · cases ho
    · rw [Schema.compile_object] at run
      obtain ⟨s₁, _, _, _, declared, -⟩ := Schema.assemble_ok.1 run
      have declares := Declares.of_registerAll simple.plainKeys declared
      obtain ⟨-, -, -, typed⟩ := Node.accepted_iff.1 (declares.accepted _ hx)
      exact .inr typed
    · rw [inline] at leaf
      cases leaf

/-- Elements of arrays that have one form make compatible kinds of arrays. -/
theorem arrayKind_form (decides : FormDecides δ o (sizeOf x))
    (decidesInside : FormDecides δ o.forChild (sizeOf x)) (same : x.form = x'.form)
    (simple : Simple x) (simple' : Simple x') {kind : FieldKind δ}
    (hk : arrayKind o path x = .ok kind) (fair : FairElement o path x') :
    ∃ kind', arrayKind o path x' = .ok kind' ∧ kind.Compatible kind' := by
  have inline : isInline o.typeKey x = isInline o.typeKey x' :=
    isInline_form same simple simple' (not_bare_of_arrayKind hk) fair.not_bare
  have noSchema' : ∀ s, x' ≠ .schema s := by
    rintro s rfl
    cases simple'.schemas
  have unfold' : arrayKind o path x' =
      if isInline o.typeKey x' then (Schema.compile o.forChild x').map .documents
      else (typeAt o path x').map .array := by
    rw [arrayKind]
    exact noSchema'
  rw [unfold', ← inline]
  rcases arrayKind_cases hk with ⟨s, rfl, -⟩ | ⟨s, isInline, run, rfl⟩ | ⟨t, leaf, typed, rfl⟩
  · cases simple.schemas
  · rw [if_pos isInline]
    cases x with
    | object fields =>
      obtain ⟨fields', rfl⟩ := object_of_form same.symm fair.not_bare simple'.schemas
      obtain ⟨s', run', twin⟩ := compile_form_of_decides simple simple' same decidesInside
        (fun names y hy => fair.leaf simple' (inline ▸ isInline) hy) run
      rw [run']
      have mirrors := Mirrors.compile simple run
      exact ⟨_, rfl, .documents (mirrors.compatible (.compile simple' run') twin.fields)⟩
    | _ => cases isInline
  · rw [leaf]
    have fair' : Fair o path x' := by
      refine fair.imp_right ?_
      rintro ⟨kind', hk'⟩
      rw [unfold', ← inline, leaf] at hk'
      cases typed' : x'.typeAt o path with
      | error e =>
        rw [typed'] at hk'
        cases hk'
      | ok t' => exact ⟨t', rfl⟩
    obtain ⟨t', typed', compatible⟩ :=
      decides (Nat.le_refl _) same simple.neat simple'.neat typed fair'
    rw [typed']
    exact ⟨_, rfl, .array compatible⟩

/-- Definitions of one form make compatible fields. -/
theorem typeAt_form {o : Options} {path : String} {d d' : Definition δ} {t : FieldType δ}
    (same : d.form = d'.form) (neat : Neat d) (neat' : Neat d') (typed : d.typeAt o path = .ok t)
    (fair : Fair o path d') : ∃ t', d'.typeAt o path = .ok t' ∧ t.Compatible t' := by
  have legible := legible_of_typeAt typed
  have records := record_form same neat neat' legible fair.legible
  have parts := neat.record o.typeKey
  have parts' := neat'.record o.typeKey
  -- the shapes of both are alike, whatever the shape is
  have shapes {shape₁ : Shape δ} (hs : shape o.typeKey path (d.record o.typeKey) = .ok shape₁) :
      ∃ shape₂, shape o.typeKey path (d'.record o.typeKey) = .ok shape₂ ∧ shape₁.Alike shape₂ :=
    shape_form records (fun e he => (parts.2 e he).schemas) (fun e he => (parts'.2 e he).schemas)
      fair.legible hs
  obtain ⟨kind, rfl, hs | ⟨hs, rfl⟩ | ⟨x, hs, hk⟩⟩ := typeAt_cases typed
  · obtain ⟨shape₂, hs', alike⟩ := shapes hs
    cases alike
    rw [typeAt_eq, hs']
    exact ⟨_, rfl, fieldAt_form same neat neat' legible fair.legible (.refl kind)⟩
  · obtain ⟨shape₂, hs', alike⟩ := shapes hs
    cases alike
    rw [typeAt_eq, hs']
    exact ⟨_, rfl, fieldAt_form same neat neat' legible fair.legible (.refl _)⟩
  · obtain ⟨shape₂, hs', alike⟩ := shapes hs
    cases alike with
    | @arrayOf _ x' sameElement =>
      have smaller : sizeOf x < sizeOf d := sizeOf_lt_of_arrayKind hs hk
      have decides (o : Options) : FormDecides δ o (sizeOf x) :=
        fun le same neat neat' typed fair =>
          have := Nat.lt_of_le_of_lt le smaller
          typeAt_form same neat neat' typed fair
      obtain ⟨kind', hk', compatible⟩ := arrayKind_form (decides o) (decides o.forChild) sameElement
        (hereditary_simple.element parts.2 hs) (hereditary_simple.element parts'.2 hs') hk
        (fair.element hs')
      rw [typeAt_eq, hs']
      dsimp only
      rw [hk']
      exact ⟨_, rfl, fieldAt_form same neat neat' legible fair.legible compatible⟩
termination_by sizeOf d

end Definition

/-- Where an object compiles, so does every object of its form that came from JSON, and to a
twin. -/
theorem compile_form (simple : Simple (object fields)) (simple' : Simple (object fields'))
    (same : (object fields).form = (object fields').form) (json : (object fields').IsJson)
    (run : Schema.compile o (object fields) = .ok s) :
    ∃ s', Schema.compile o (object fields') = .ok s' ∧ Twin o s s' :=
  compile_form_of_decides simple simple' same
    (fun _ same neat neat' typed fair => typeAt_form same neat neat' typed fair)
    (fun _ _ hx => .inl (hereditary_isJson.leaf fields' (hereditary_isJson.field json) hx)) run

end DocSchema
