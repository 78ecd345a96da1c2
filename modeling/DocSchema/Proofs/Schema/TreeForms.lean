import DocSchema.Proofs.Schema.Forms

/-!
# Trees of one form

Two trees that are shown alike, up to the order of keys, are alike (`alike_of_form`), if their nodes
can be told apart in what is shown. A branch is told from a record by what stands under the type
key: a record holds a type there. A virtual is told by its mark.
-/

namespace DocSchema

open Definition

variable {δ : Type} {typeKey : String} {root root' : Table (Tree (Definition δ))}

namespace Definition

/-- Whether two definitions have one form. -/
abbrev SameForm (d d' : Definition δ) : Prop := d.form = d'.form

/-- What a node of a tree is shown as, whatever the order of its keys. -/
def nodeForm (x : Tree (Definition δ)) : Json := (nodeJson x).sorted

theorem get?_treeJson (children : Table (Tree (Definition δ))) (key : String) :
    Table.get? (treeJson children) key = (Table.get? children key).map nodeJson := by
  induction children with
  | nil => rfl
  | cons e children ih =>
    obtain ⟨k, x⟩ := e
    by_cases hk : k = key <;> simp [treeJson, Table.get?, hk, ih]

theorem keys_treeJson (children : Table (Tree (Definition δ))) :
    Table.keys (treeJson children) = Table.keys children := by
  induction children with
  | nil => rfl
  | cons e children ih =>
    obtain ⟨k, x⟩ := e
    rw [treeJson, Table.keys_cons, Table.keys_cons, ih]

/-- Branches of one form hold nodes of one form under each name. -/
theorem children_form {children children' : Table (Tree (Definition δ))}
    (same : nodeForm (.branch children) = nodeForm (.branch children'))
    (distinct : (Table.keys children).Nodup) (distinct' : (Table.keys children').Nodup)
    (name : String) :
    (Table.get? children name).map nodeForm = (Table.get? children' name).map nodeForm := by
  rw [← keys_treeJson] at distinct distinct'
  have here := (Json.sorted_obj_iff distinct distinct').1 same name
  rw [get?_treeJson, get?_treeJson, Option.map_map, Option.map_map] at here
  exact here

/-- A branch and an object of one form hold nodes and definitions of one form. -/
theorem children_form_fields {children : Table (Tree (Definition δ))}
    {fields : List (String × Definition δ)}
    (same : nodeForm (.branch children) = (object fields).form)
    (distinct : (Table.keys children).Nodup) (distinct' : (Table.keys fields).Nodup)
    (name : String) : (Table.get? children name).map nodeForm = (Table.get? fields name).map form := by
  rw [← keys_treeJson] at distinct
  rw [← keys_fieldsJson] at distinct'
  have here := (Json.sorted_obj_iff distinct distinct').1 same name
  rw [get?_treeJson, get?_fieldsJson, Option.map_map, Option.map_map] at here
  exact here

end Definition

/-- Whether the nodes of a tree can be told from those of another one in what is shown. -/
structure Readable (typeKey : String) (root root' : Table (Tree (Definition δ))) : Prop where
  sound : Tree.SoundRoot root
  field : ∀ {names d}, Tree.get? names root = some (.field d) →
    Neat d ∧ d.isBare = false ∧ isInline typeKey d = false
  branch : ∀ {names inner}, names ≠ [] → Tree.get? names root = some (.branch inner) →
    (∃ inner', Tree.get? names root' = some (.branch inner')) ∨
      ∀ x, Table.get? inner typeKey = some x → ∃ d, x = .field d ∧ d.isUnset = true
  virtual : ∀ {names x'}, Tree.get? names root = some .virtual →
    Tree.get? names root' = some x' → nodeForm x' = virtualMark.sorted → x' = .virtual

/-- A branch is not shown as a field is. -/
theorem Readable.branch_ne_field (h : Readable typeKey root root') (h' : Readable typeKey root' root)
    {names : List String} (hn : names ≠ []) {inner : Table (Tree (Definition δ))} {d : Definition δ}
    (hb : Tree.get? names root = some (.branch inner)) (hf : Tree.get? names root' = some (.field d)) :
    nodeForm (.branch inner) ≠ d.form := by
  intro same
  have sound := h.sound.get? hb
  obtain ⟨neat, bare, leaf⟩ := h'.field hf
  obtain ⟨fields, rfl⟩ := object_of_form same.symm bare neat.schemas
  have inside := children_form_fields same sound.root.distinct neat.1
  have given : fields ≠ [] := by
    rintro rfl
    obtain ⟨e, children, rfl⟩ := List.exists_cons_of_ne_nil sound.ne_nil
    have here := inside e.1
    simp [Table.get?] at here
  -- the object holds a type, and what stands there in the branch is unset
  obtain ⟨x, hx⟩ := exists_statedType? leaf given
  obtain ⟨hx, given⟩ := Option.filter_eq_some_iff.1 hx
  have here := inside typeKey
  rw [hx, Option.map_some, Option.map_eq_some_iff] at here
  obtain ⟨y, hy, sameType⟩ := here
  rcases h.branch hn hb with ⟨inner', hb'⟩ | unset
  · cases hf.symm.trans hb'
  · obtain ⟨d, rfl, unset⟩ := unset y hy
    rw [isUnset_form (show d.form = x.form from sameType)] at unset
    simp [unset] at given

/-- Whether a branch of a tree stands at some names, or at none if it is the whole tree. -/
def Tree.StandsAt (root : Table (Tree (Definition δ))) (names : List String)
    (inner : Table (Tree (Definition δ))) : Prop :=
  names = [] ∧ inner = root ∨ Tree.get? names root = some (.branch inner)

theorem Tree.StandsAt.get? {names : List String} {inner : Table (Tree (Definition δ))}
    (h : Tree.StandsAt root names inner) {name : String} {x : Tree (Definition δ)}
    (hx : Table.get? inner name = some x) : Tree.get? (names ++ [name]) root = some x := by
  rcases h with ⟨rfl, rfl⟩ | h
  · exact hx
  · have hn : names ≠ [] := by
      rintro rfl
      cases h
    rw [Tree.get?_append names [name] root hn (by simp), h]
    exact hx

theorem Tree.StandsAt.distinct {names : List String} {inner : Table (Tree (Definition δ))}
    (h : Tree.StandsAt root names inner) (sound : Tree.SoundRoot root) :
    (Table.keys inner).Nodup := by
  rcases h with ⟨-, rfl⟩ | h
  · exact sound.distinct
  · exact (sound.get? h).root.distinct

/-- Branches of one form that stand at one place are alike. -/
theorem alike_at (h : Readable typeKey root root') (h' : Readable typeKey root' root)
    (names : List String) (inner inner' : Table (Tree (Definition δ)))
    (at_names : Tree.StandsAt root names inner) (at_names' : Tree.StandsAt root' names inner')
    (same : nodeForm (.branch inner) = nodeForm (.branch inner')) :
    Tree.Alike SameForm (.branch inner) (.branch inner') := by
  have inside := children_form same (at_names.distinct h.sound) (at_names'.distinct h'.sound)
  refine .branch (fun name => ?_) fun name x x' hx hx' => ?_
  · have := congrArg Option.isSome (inside name)
    rwa [Option.isSome_map, Option.isSome_map] at this
  · have here : nodeForm x = nodeForm x' := by
      have := inside name
      rw [hx, hx'] at this
      exact Option.some.inj this
    have place := at_names.get? hx
    have place' := at_names'.get? hx'
    have some_name : names ++ [name] ≠ [] := by simp
    match x, x' with
    | .branch children, .branch children' =>
      have smaller := Table.sizeOf_lt_of_get? hx
      exact alike_at h h' (names ++ [name]) children children' (.inr place) (.inr place') here
    | .field d, .field d' => exact .field here
    | .virtual, .virtual => exact .virtual
    | .branch children, .field d => exact absurd here (h.branch_ne_field h' some_name place place')
    | .field d, .branch children =>
      exact absurd here.symm (h'.branch_ne_field h some_name place' place)
    | .virtual, .branch children => cases h.virtual place place' here.symm
    | .virtual, .field d => cases h.virtual place place' here.symm
    | .branch children, .virtual => cases h'.virtual place' place here
    | .field d, .virtual => cases h'.virtual place' place here
termination_by sizeOf inner
decreasing_by
  simp only [Tree.branch.sizeOf_spec] at smaller
  omega

/-- Trees of one form are alike. -/
theorem alike_of_form (h : Readable typeKey root root') (h' : Readable typeKey root' root)
    (same : (Json.obj (treeJson root)).sorted = (Json.obj (treeJson root')).sorted) :
    Tree.Alike SameForm (.branch root) (.branch root') :=
  alike_at h h' [] root root' (.inl ⟨rfl, rfl⟩) (.inl ⟨rfl, rfl⟩) same

/-- Branches that hold nodes of one form under the same names have one form. -/
theorem branch_form (distinct : (Table.keys root).Nodup) (distinct' : (Table.keys root').Nodup)
    (names : ∀ name, Table.contains root name = Table.contains root' name)
    (nodes : ∀ name x x', Table.get? root name = some x → Table.get? root' name = some x' →
      nodeForm x = nodeForm x') : nodeForm (.branch root) = nodeForm (.branch root') := by
  rw [← keys_treeJson] at distinct distinct'
  refine (Json.sorted_obj_iff distinct distinct').2 fun name => ?_
  have known := names name
  unfold Table.contains at known
  rw [get?_treeJson, get?_treeJson, Option.map_map, Option.map_map]
  cases hx : Table.get? root name with
  | none =>
    cases hx' : Table.get? root' name with
    | none => rfl
    | some x' => simp [hx, hx'] at known
  | some x =>
    cases hx' : Table.get? root' name with
    | none => simp [hx, hx'] at known
    | some x' => exact congrArg some (nodes name x x' hx hx')

theorem form_of_alike {x x' : Tree (Definition δ)} (h : Tree.Alike SameForm x x') :
    Tree.Sound x → Tree.Sound x' → nodeForm x = nodeForm x' := by
  induction h with
  | field same => exact fun _ _ => same
  | virtual => exact fun _ _ => rfl
  | branch names nodes ih =>
    intro sound sound'
    exact branch_form sound.root.distinct sound'.root.distinct names fun name x x' hx hx' =>
      ih name x x' hx hx' (sound.root.node hx) (sound'.root.node hx')

/-- Trees that are alike are shown alike, up to the order of keys. -/
theorem root_form_of_alike
    (h : Tree.Alike SameForm (.branch root) (.branch root'))
    (sound : Tree.SoundRoot root) (sound' : Tree.SoundRoot root') :
    (Json.obj (treeJson root)).sorted = (Json.obj (treeJson root')).sorted := by
  cases h with
  | branch names nodes =>
    exact branch_form sound.distinct sound'.distinct names fun name x x' hx hx' =>
      form_of_alike (nodes name x x' hx hx') (sound.node hx) (sound'.node hx')

end DocSchema
