import DocSchema.Document.Memory
import DocSchema.Proofs.Path.Below
import DocSchema.Proofs.Schema.Reachable
import DocSchema.Proofs.Tree.Frame

/-!
# Declared names do not clash

The fields, the groups, the virtuals and the tree of a schema are kept apart from one another by
checks in several places. `Coherent` says what these checks achieve together: the tree has a field
at the path of every field and a virtual at the path of every virtual and nowhere else, and no field
is also a group. Since a tree has one node at a place and nothing below a leaf, it follows that no
path stands for two things and that no field or virtual lies below another one.

Every step keeps this, also the steps of a call that fails half way (`Coherent.step`), so it holds
after any calls (`Coherent.of_reached`).
-/

namespace DocSchema.Schema

variable {δ : Type} {s s' : Schema δ}

/-! ### The invariant -/

/-- A path that is not taken is no group, no virtual and nothing but a field in the tree. -/
theorem not_taken {path : String} (h : s.isTaken path = false) :
    path ∉ s.groups ∧ Table.contains s.virtuals path = false ∧
      ∀ x, Tree.get? (Path.segments path) s.tree = some x → ∃ d, x = .field d := by
  unfold isTaken at h
  rw [Bool.or_eq_false_iff, Bool.or_eq_false_iff, ← Bool.not_eq_true, List.contains_iff_mem] at h
  refine ⟨h.1.1, h.1.2, fun x hx => ?_⟩
  rw [hx] at h
  cases x with
  | branch children => exact absurd h.2 (by simp)
  | field d => exact ⟨d, rfl⟩
  | virtual => exact absurd h.2 (by simp)

/-- The names of a schema are in order. -/
structure Coherent (s : Schema δ) : Prop where
  distinct : (Table.keys s.fields).Nodup
  field_node : ∀ {path}, Table.contains s.fields path = true →
    ∃ d, Tree.get? (Path.segments path) s.tree = some (.field d)
  virtual_node : ∀ {names}, Tree.get? names s.tree = some .virtual ↔
    ∃ path, Table.contains s.virtuals path = true ∧ Path.segments path = names
  not_group : ∀ {path}, Table.contains s.fields path = true → path ∉ s.groups
  not_reserved : ∀ {path}, Table.contains s.fields path = true → Path.isReserved path = false
  own_path : ∀ {path t}, Table.get? s.fields path = some t → t.path = path

namespace Coherent

theorem empty (o : Options) : Coherent (Schema.empty o : Schema δ) where
  distinct := List.nodup_nil
  field_node h := by simp [Schema.empty, Table.contains] at h
  virtual_node := by simp [Schema.empty, Table.contains, Tree.get?_empty]
  not_group h := by simp [Schema.empty, Table.contains] at h
  not_reserved h := by simp [Schema.empty, Table.contains] at h
  own_path h := by simp [Schema.empty] at h

theorem congr (h : Coherent s) (same : SameNames s s') : Coherent s' := by
  obtain ⟨hf, hg, -, -, hv, ht⟩ := same
  constructor
  · rw [hf]; exact h.distinct
  · rw [hf, ht]; exact h.field_node
  · rw [hv, ht]; exact h.virtual_node
  · rw [hf, hg]; exact h.not_group
  · rw [hf]; exact h.not_reserved
  · rw [hf]; exact h.own_path

/-- Binding a free path in the tree puts no other name in danger. -/
theorem place (h : Coherent s) {path : String} {d : Definition δ}
    (placed : s.place path d = .ok s') : Coherent s' := by
  obtain ⟨-, hfree, tree, hi, rfl⟩ := place_ok placed
  obtain ⟨-, hnv, hleaf⟩ := not_taken hfree
  have put := Tree.insertField_placed (Path.segments_ne_nil path) hi
  have noBranch : ∀ inner, Tree.get? (Path.segments path) s.tree ≠ some (.branch inner) := by
    intro inner hb
    obtain ⟨d', hd'⟩ := hleaf _ hb
    cases hd'
  refine { h with field_node := fun {p} hp => ?_, virtual_node := fun {names} => ?_ }
  · -- a field that is declared again is replaced, every other one stays
    by_cases he : p = path
    · subst he
      exact ⟨d, put.self⟩
    · obtain ⟨d', hd'⟩ := h.field_node hp
      exact ⟨d', put.leaf_survives noBranch rfl (fun hs => he (Path.segments_injective hs)) hd'⟩
  · by_cases he : names = Path.segments path
    · subst he
      constructor
      · intro hn
        rw [put.self] at hn
        cases hn
      · rintro ⟨v, hv, hs⟩
        rw [Path.segments_injective hs, hnv] at hv
        cases hv
    · rw [← h.virtual_node]
      exact ⟨put.leaf_was_there rfl rfl he, put.leaf_survives noBranch rfl he⟩

/-- A field whose path is bound in the tree may be stored. -/
theorem adopt (h : Coherent s) {path : String} {t : FieldType δ} {d : Definition δ}
    (bound : Tree.get? (Path.segments path) s.tree = some (.field d)) (hg : path ∉ s.groups)
    (hr : Path.isReserved path = false) (ht : t.path = path) : Coherent (s.adopt path t) := by
  have known {p : String} (hp : Table.contains (s.adopt path t).fields p = true) :
      p = path ∨ Table.contains s.fields p = true := by
    simpa [Table.contains_insert] using hp
  constructor
  · rw [adopt_fields]
    exact Table.nodup_keys_insert _ _ _ h.distinct
  · intro p hp
    rw [adopt_tree]
    rcases known hp with rfl | hp
    · exact ⟨d, bound⟩
    · exact h.field_node hp
  · rw [adopt_tree, adopt_virtuals]
    exact h.virtual_node
  · intro p hp
    rw [adopt_groups]
    rcases known hp with rfl | hp
    · exact hg
    · exact h.not_group hp
  · intro p hp
    rcases known hp with rfl | hp
    · exact hr
    · exact h.not_reserved hp
  · intro p t' ht'
    rw [adopt_fields] at ht'
    by_cases he : p = path
    · subst he
      rw [Table.get?_insert_self] at ht'
      cases ht'
      exact ht
    · rw [Table.get?_insert_of_ne _ _ he] at ht'
      exact h.own_path ht'

theorem openGroup (h : Coherent s) {path : String} (free : Table.contains s.fields path = false) :
    Coherent { s with groups := addName s.groups path } := by
  refine { h with not_group := fun {p} hp hm => ?_ }
  rcases mem_addName.1 hm with rfl | hm
  · rw [free] at hp
    cases hp
  · exact h.not_group hp hm

/-- A virtual only goes where the tree has nothing, since every virtual in it is declared. -/
theorem declareVirtual (h : Coherent s) {path : String} {v : Virtual}
    {tree : Table (Tree (Definition δ))} (new : Table.contains s.virtuals path = false)
    (placed : Tree.insertVirtual (Path.segments path) s.tree = .ok tree) :
    Coherent { s with tree := tree, virtuals := Table.insert s.virtuals path v } := by
  have put := Tree.insertVirtual_placed (Path.segments_ne_nil path) placed
  -- the tree would let a virtual take the place of a virtual, but that one would be declared
  have free : Tree.get? (Path.segments path) s.tree = none := by
    refine (Tree.insertVirtual_was_free placed).resolve_right fun hv => ?_
    obtain ⟨w, hw, hs⟩ := h.virtual_node.1 hv
    rw [Path.segments_injective hs, new] at hw
    cases hw
  have noBranch : ∀ inner, Tree.get? (Path.segments path) s.tree ≠ some (.branch inner) := by
    intro inner hb
    rw [free] at hb
    cases hb
  refine { h with field_node := fun {p} hp => ?_, virtual_node := fun {names} => ?_ }
  · obtain ⟨d, hd⟩ := h.field_node hp
    refine ⟨d, put.leaf_survives noBranch rfl (fun hs => ?_) hd⟩
    rw [hs, free] at hd
    cases hd
  · by_cases he : names = Path.segments path
    · subst he
      exact ⟨fun _ => ⟨path, by simp [Table.contains_insert], rfl⟩, fun _ => put.self⟩
    · have declared : (∃ w, Table.contains (Table.insert s.virtuals path v) w = true ∧
          Path.segments w = names) ↔
          ∃ w, Table.contains s.virtuals w = true ∧ Path.segments w = names := by
        refine exists_congr fun w => and_congr_left fun hw => ?_
        have hne : w ≠ path := by
          rintro rfl
          exact he hw.symm
        simp [Table.contains_insert, hne]
      rw [declared, ← h.virtual_node]
      exact ⟨put.leaf_was_there rfl rfl he, put.leaf_survives noBranch rfl he⟩

theorem extendVirtual (h : Coherent s) {path : String} {v w : Virtual}
    (known : Table.get? s.virtuals path = some v) :
    Coherent { s with virtuals := Table.insert s.virtuals path w } := by
  refine { h with virtual_node := fun {names} => ?_ }
  rw [h.virtual_node]
  refine exists_congr fun p => and_congr_left fun _ => ?_
  have hp : Table.contains s.virtuals path = true := (Table.contains_iff_get? _ _).2 ⟨v, known⟩
  rw [Table.contains_insert]
  by_cases he : p = path <;> simp [he, hp]

end Coherent

/-! ### What follows for the paths -/

def Declares (s : Schema δ) (path : String) : Prop :=
  Table.contains s.fields path = true ∨ Table.contains s.virtuals path = true

namespace Coherent

/-- A field or a virtual stands in the tree, and nothing stands below it. -/
theorem leaf_of_declares (h : Coherent s) {path : String} (hp : s.Declares path) :
    ∃ x, Tree.get? (Path.segments path) s.tree = some x ∧ x.isBranch = false := by
  rcases hp with hf | hv
  · obtain ⟨d, hd⟩ := h.field_node hf
    exact ⟨_, hd, rfl⟩
  · exact ⟨_, h.virtual_node.2 ⟨path, hv, rfl⟩, rfl⟩

/-- What stands in the tree has no field and no virtual above it. -/
theorem not_below_of_node (h : Coherent s) {a b : String} {x : Tree (Definition δ)}
    (ha : s.Declares a) (hb : Tree.get? (Path.segments b) s.tree = some x) :
    Path.isBelow a b = false := by
  rw [Bool.eq_false_iff]
  intro hab
  obtain ⟨rest, hr, hs⟩ := Path.isBelow_iff_segments.1 hab
  obtain ⟨y, hy, hleaf⟩ := h.leaf_of_declares ha
  rw [hs, Tree.get?_below_leaf hleaf hy hr] at hb
  cases hb

theorem not_below (h : Coherent s) {a b : String} (ha : s.Declares a) (hb : s.Declares b) :
    Path.isBelow a b = false := by
  obtain ⟨x, hx, -⟩ := h.leaf_of_declares hb
  exact h.not_below_of_node ha hx

theorem not_virtual (h : Coherent s) {path : String} (hf : Table.contains s.fields path = true) :
    Table.contains s.virtuals path = false := by
  rw [Bool.eq_false_iff]
  intro hv
  obtain ⟨d, hd⟩ := h.field_node hf
  rw [h.virtual_node.2 ⟨path, hv, rfl⟩] at hd
  cases hd

end Coherent

/-- No path stands for two things, and the tree shows what each path stands for. -/
structure Apart (s : Schema δ) : Prop where
  field_or_group : ∀ name, ¬ (Table.contains s.fields name = true ∧ name ∈ s.groups)
  field_or_virtual : ∀ name,
    ¬ (Table.contains s.fields name = true ∧ Table.contains s.virtuals name = true)
  leaves : ∀ a b, s.Declares a → s.Declares b → Path.isBelow a b = false
  field_node : ∀ path, Table.contains s.fields path = true →
    ∃ d, Tree.get? (Path.segments path) s.tree = some (.field d)
  virtual_node : ∀ names, Tree.get? names s.tree = some .virtual ↔
    ∃ path, Table.contains s.virtuals path = true ∧ Path.segments path = names
  not_reserved : ∀ path, Table.contains s.fields path = true → Path.isReserved path = false
  own_path : ∀ path t, Table.get? s.fields path = some t → t.path = path

theorem Coherent.apart (h : Coherent s) : Apart s where
  field_or_group _ := fun ⟨hf, hg⟩ => h.not_group hf hg
  field_or_virtual _ := fun ⟨hf, hv⟩ => by
    rw [h.not_virtual hf] at hv
    cases hv
  leaves _ _ := h.not_below
  field_node _ := h.field_node
  virtual_node _ := h.virtual_node
  not_reserved _ := h.not_reserved
  own_path _ _ := h.own_path

/-! ### After any calls -/

variable [Document δ] {R : Schema δ → Prop}

namespace Coherent

/-- Every step keeps the names in order. -/
theorem step (h : Coherent s) (hs : Step R s s') : Coherent s' := by
  cases hs.names with
  | bind placed => exact h.place placed
  | @declare path d t s₁ placed typed _ =>
    have h₁ := h.place placed
    obtain ⟨hr, hfree, tree, hi, rfl⟩ := place_ok placed
    have put := Tree.insertField_placed (Path.segments_ne_nil path) hi
    exact h₁.adopt put.self (not_taken hfree).1 hr (Definition.path_typeAt typed)
  | openGroup free => exact h.openGroup free
  | declareVirtual options new placed => exact h.declareVirtual new placed
  | extendVirtual known => exact h.extendVirtual known
  | other same => exact h.congr same

theorem steps (hs : Steps R s s') (h : Coherent s) : Coherent s' :=
  hs.keep (fun _ _ st h => h.step st) h

theorem of_reached {allowed : Schema δ → Call δ → Prop} (h : Reached allowed s) : Coherent s :=
  h.induct empty fun _ _ st h => h.step st

end Coherent

/-- Whatever calls are made on a compiled schema, in whatever order and whether they fail or not, no
path comes to stand for two things. -/
theorem apart_runAll {o : Options} {d : Definition δ} {s₀ : Schema δ}
    (compiled : Schema.compile o d = .ok s₀) (calls : List (Call δ)) :
    Apart (Call.runAll s₀ calls) := by
  have hR : Closed fun _ : Schema δ => True := fun _ _ _ _ _ _ => trivial
  have compiling := steps_compile hR o d s₀ (fun _ _ => trivial) compiled
  have running := Call.steps_runAll hR calls s₀ fun _ _ => trivial
  exact (Coherent.steps (compiling.trans running) (Coherent.empty o)).apart

/-- A definition with a group, and with a field whose path has a dot in one key. -/
def sampleDefinition : Definition MemoryDocument :=
  .object [("name", .object [("first", .literal (.str "String"))]), ("tags.main", .array [])]

/-- Calls that fail, some of them half way, between calls that succeed. -/
def sampleCalls : List (Call MemoryDocument) :=
  [.add (.object [("a", .object [("b", .literal .null)])]) "",
    .declare "a" (.type .mixed),
    .virtual "a" [] [] [],
    .declare "c" (.literal (.str "Unheard")),
    .virtual "name.first" [] [] [],
    .plugin [.virtual "name.full" [] [] [], .declare "name.full.x" (.type .mixed)]]

theorem apart_runAll_sample :
    ∃ s₀, Schema.compile {} sampleDefinition = .ok s₀ ∧ Apart (Call.runAll s₀ sampleCalls) := by
  have h : (Schema.compile {} sampleDefinition).toOption.isSome = true := by decide +kernel
  cases hc : Schema.compile {} sampleDefinition with
  | error e => rw [hc] at h; cases h
  | ok s₀ => exact ⟨s₀, rfl, apart_runAll hc sampleCalls⟩

end DocSchema.Schema
