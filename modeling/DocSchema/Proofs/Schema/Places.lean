import DocSchema.Proofs.Schema.Declaring
import DocSchema.Proofs.Tree.Alike

/-!
# The places of a definition

The tree of an object holds its nodes at the places that their keys lead to: a leaf where the tree
has a field, a group where it has a branch (`mem_nodes_iff`). So what is known of the nodes of an
object can be read off its tree, and the other way round.

What every leaf of an object has because the object has it is `Hereditary`.
-/

namespace DocSchema

open Definition

/-! ### Reading a tree at its first names -/

namespace Tree

variable {α : Type} {names : List String} {name : String} {x y : Tree α} {root : Table (Tree α)}

/-- What a root with one more entry holds is in the new entry or was there before. -/
theorem get?_entry (names : List String) (name : String) (x : Tree α) (root : Table (Tree α)) :
    get? names ((name, x) :: root) =
      if names.head? = some name then get? names [(name, x)] else get? names root := by
  match names with
  | [] => rfl
  | [n] => by_cases hn : name = n <;> simp [Table.get?, hn, Ne.symm]
  | n :: m :: rest => by_cases hn : name = n <;> simp [get?_cons_cons, Table.get?, hn, Ne.symm]

theorem get?_leaf_iff (hx : x.isBranch = false) :
    get? names [(name, x)] = some y ↔ names = [name] ∧ x = y := by
  match names with
  | [] => simp
  | [n] => by_cases hn : name = n <;> simp [Table.get?, hn, Ne.symm]
  | n :: m :: rest =>
    by_cases hn : name = n
    · cases x <;> simp_all [get?_cons_cons, Table.get?, isBranch]
    · simp [get?_cons_cons, Table.get?, hn]

theorem get?_branch_iff {inner : Table (Tree α)} :
    get? names [(name, .branch inner)] = some y ↔
      names = [name] ∧ .branch inner = y ∨ ∃ rest, names = name :: rest ∧ get? rest inner = some y := by
  match names with
  | [] => simp
  | [n] => by_cases hn : name = n <;> simp [Table.get?, hn, Ne.symm]
  | n :: m :: rest =>
    by_cases hn : name = n
    · simp [get?_cons_cons, Table.get?, hn]
    · simp [get?_cons_cons, Table.get?, hn, Ne.symm hn]

theorem head_of_get? (h : get? names [(name, x)] = some y) : names.head? = some name := by
  match names with
  | [] => cases h
  | [n] => by_cases hn : name = n <;> simp_all [Table.get?]
  | n :: m :: rest => by_cases hn : name = n <;> simp_all [get?_cons_cons, Table.get?]

/-- Where the new entry has a name of its own, it hides nothing. -/
theorem get?_entry_iff (free : Table.contains root name = false) :
    get? names ((name, x) :: root) = some y ↔
      get? names [(name, x)] = some y ∨ get? names root = some y := by
  rw [get?_entry]
  split
  · next hh =>
    refine ⟨.inl, fun h => h.resolve_right fun hr => ?_⟩
    have unbound : Table.get? root name = none := (Table.get?_eq_none_iff _ _).2 free
    match names with
    | [n] => simp_all
    | n :: m :: rest => simp_all [get?_cons_cons]
  · next hh => exact ⟨.inr, fun h => h.resolve_left fun hl => hh (head_of_get? hl)⟩

end Tree

variable {δ : Type} {typeKey : String}

/-- Whether a tree has a node of a definition at the place that the keys of this node lead to. -/
def Node.StandsIn (root : Table (Tree (Definition δ))) : Node δ → Prop
  | .group names => ∃ inner, Tree.get? names root = some (.branch inner)
  | .leaf names d => Tree.get? names root = some (.field d)

namespace Definition

theorem keys_toTree (fields : List (String × Definition δ)) :
    Table.keys (toTree typeKey fields) = Table.keys fields := by
  induction fields with
  | nil => rfl
  | cons f fields ih => rw [toTree, Table.keys_cons, Table.keys_cons, ih]

/-! ### Nodes and places -/

theorem mem_leaf_iff {key : String} {n : Node δ} {d : Definition δ} :
    n ∈ [Node.leaf [key] d] ↔ n.StandsIn [(key, .field d)] := by
  rw [List.mem_singleton]
  cases n with
  | group names => simp [Node.StandsIn, Tree.get?_leaf_iff (x := .field d) rfl]
  | leaf names x =>
    rw [Node.StandsIn, Tree.get?_leaf_iff rfl, Node.leaf.injEq, Tree.field.injEq, eq_comm (a := x)]

mutual

theorem mem_nodesAt_iff (key : String) (n : Node δ) : ∀ d : Definition δ, PlainAt typeKey d →
    (n ∈ nodesAt typeKey [key] d ↔ n.StandsIn [(key, toNode typeKey d)])
  | .object (f :: fs), plain => by
    rw [nodesAt, toNode]
    split
    · next group =>
      have under : nodes typeKey [key] (f :: fs) =
          (nodes typeKey [] (f :: fs)).map (Node.under [key]) := nodes_under typeKey [key] [] _
      have inner := fun m => mem_nodes_iff m (f :: fs) (plain group)
      rw [under, List.mem_cons, List.mem_map]
      cases n with
      | group names =>
        simp only [Node.StandsIn, Tree.get?_branch_iff]
        constructor
        · rintro (h | ⟨m, hm, h⟩)
          · exact ⟨_, .inl ⟨(Node.group.inj h), rfl⟩⟩
          · cases m with
            | leaf ns x => cases h
            | group ns =>
              obtain ⟨i, hi⟩ := (inner _).1 hm
              exact ⟨i, .inr ⟨ns, (Node.group.inj h).symm, hi⟩⟩
        · rintro ⟨i, ⟨rfl, -⟩ | ⟨rest, rfl, hi⟩⟩
          · exact .inl rfl
          · exact .inr ⟨.group rest, (inner _).2 ⟨i, hi⟩, rfl⟩
      | leaf names x =>
        simp only [Node.StandsIn, Tree.get?_branch_iff]
        constructor
        · rintro (h | ⟨m, hm, h⟩)
          · cases h
          · cases m with
            | group ns => cases h
            | leaf ns x' =>
              obtain ⟨rfl, rfl⟩ := Node.leaf.inj h
              exact .inr ⟨ns, rfl, (inner _).1 hm⟩
        · rintro (⟨-, h⟩ | ⟨rest, rfl, hi⟩)
          · cases h
          · exact .inr ⟨.leaf rest x, (inner _).2 hi, rfl⟩
    · exact mem_leaf_iff
  | .object [], _ => mem_leaf_iff
  | .literal v, _ => mem_leaf_iff
  | .array items, _ => mem_leaf_iff
  | .type t, _ => mem_leaf_iff
  | .schema s, _ => mem_leaf_iff

/-- The nodes of an object stand at their places in its tree, and nothing else does. -/
theorem mem_nodes_iff (n : Node δ) : ∀ fields : List (String × Definition δ),
    PlainKeys typeKey fields → (n ∈ nodes typeKey [] fields ↔ n.StandsIn (toTree typeKey fields))
  | [], _ => by
    cases n <;> simp [nodes, toTree, Node.StandsIn, Tree.get?_empty]
  | (key, d) :: rest, ⟨_, fresh, here, others⟩ => by
    have free : Table.contains (toTree typeKey rest) key = false := by
      rw [Bool.eq_false_iff, ne_eq, Table.contains_iff_mem_keys, keys_toTree]
      exact fresh
    rw [nodes, List.mem_append, toTree, List.nil_append, mem_nodesAt_iff key n d here,
      mem_nodes_iff n rest others]
    cases n with
    | leaf names x => exact (Tree.get?_entry_iff free).symm
    | group names => simp only [Node.StandsIn, Tree.get?_entry_iff free, exists_or]

end

/-- Every branch below the root is the tree of a group. -/
theorem group_of_branch {inner : Table (Tree (Definition δ))} :
    ∀ (names : List String) (fields : List (String × Definition δ)),
      Tree.get? names (toTree typeKey fields) = some (.branch inner) →
        ∃ group, isGroup group typeKey = true ∧ inner = toTree typeKey group
  | names, [], h => by
    rw [toTree, Tree.get?_empty] at h
    cases h
  | names, (key, d) :: rest, h => by
    rw [toTree, Tree.get?_entry] at h
    split at h
    · match d with
      | .object (f :: fs) =>
        rw [toNode] at h
        split at h
        · next group =>
          rcases Tree.get?_branch_iff.1 h with ⟨-, h⟩ | ⟨below, -, h⟩
          · exact ⟨f :: fs, group, (Tree.branch.inj h).symm⟩
          · exact group_of_branch below (f :: fs) h
        · cases ((Tree.get?_leaf_iff rfl).1 h).2
      | .object [] => cases ((Tree.get?_leaf_iff rfl).1 h).2
      | .literal v => cases ((Tree.get?_leaf_iff rfl).1 h).2
      | .array items => cases ((Tree.get?_leaf_iff rfl).1 h).2
      | .type t => cases ((Tree.get?_leaf_iff rfl).1 h).2
      | .schema s => cases ((Tree.get?_leaf_iff rfl).1 h).2
    · exact group_of_branch names rest h

mutual

theorem no_virtual_toNode {names : List String} (key : String) :
    ∀ d : Definition δ, Tree.get? names [(key, toNode typeKey d)] ≠ some .virtual
  | .object (f :: fs), h => by
    rw [toNode] at h
    split at h
    · rcases Tree.get?_branch_iff.1 h with ⟨-, h⟩ | ⟨below, -, h⟩
      · cases h
      · exact no_virtual_toTree (f :: fs) h
    · cases ((Tree.get?_leaf_iff rfl).1 h).2
  | .object [], h => by cases ((Tree.get?_leaf_iff rfl).1 h).2
  | .literal v, h => by cases ((Tree.get?_leaf_iff rfl).1 h).2
  | .array items, h => by cases ((Tree.get?_leaf_iff rfl).1 h).2
  | .type t, h => by cases ((Tree.get?_leaf_iff rfl).1 h).2
  | .schema s, h => by cases ((Tree.get?_leaf_iff rfl).1 h).2

theorem no_virtual_toTree {names : List String} :
    ∀ fields : List (String × Definition δ), Tree.get? names (toTree typeKey fields) ≠ some .virtual
  | [], h => by
    rw [toTree, Tree.get?_empty] at h
    cases h
  | (key, d) :: rest, h => by
    rw [toTree, Tree.get?_entry] at h
    split at h
    · exact no_virtual_toNode key d h
    · exact no_virtual_toTree rest h

end

mutual

theorem sound_toNode : ∀ d : Definition δ, PlainAt typeKey d → Tree.Sound (toNode typeKey d)
  | .object (f :: fs), plain => by
    rw [toNode]
    split
    · next group =>
      have root := soundRoot_toTree (f :: fs) (plain group)
      exact .branch (by simp [toTree]) root.distinct root.inner
    · exact .field _
  | .object [], _ => .field _
  | .literal v, _ => .field _
  | .array items, _ => .field _
  | .type t, _ => .field _
  | .schema s, _ => .field _

theorem soundRoot_toTree : ∀ fields : List (String × Definition δ), PlainKeys typeKey fields →
    Tree.SoundRoot (toTree typeKey fields)
  | [], _ => Tree.soundRoot_nil
  | (key, d) :: rest, ⟨_, fresh, here, others⟩ => by
    have inner := soundRoot_toTree rest others
    have new : key ∉ Table.keys (toTree typeKey rest) := by
      rw [keys_toTree]
      exact fresh
    refine ⟨List.nodup_cons.2 ⟨new, inner.distinct⟩, fun e he => ?_⟩
    rcases List.mem_cons.1 he with rfl | he
    · exact sound_toNode d here
    · exact inner.inner e he

end

/-- What stands under the type key of a group is unset. -/
theorem unset_of_isGroup {group : List (String × Definition δ)} {x : Tree (Definition δ)}
    (h : isGroup group typeKey = true) (hx : Table.get? (toTree typeKey group) typeKey = some x) :
    ∃ d, x = .field d ∧ d.isUnset = true := by
  rw [get?_toTree] at hx
  obtain ⟨d, hd, rfl⟩ := Option.map_eq_some_iff.1 hx
  have unset : d.isUnset = true := by
    simpa [isGroup, statedType?, hd, Option.filter] using h
  refine ⟨d, ?_, unset⟩
  cases d <;> first | rfl | cases unset

/-! ### Properties of all leaves -/

/-- Whether what a definition holds has a property as soon as the definition has it. -/
structure Hereditary (Q : Definition δ → Prop) : Prop where
  field : ∀ {fields}, Q (.object fields) → ∀ e ∈ fields, Q e.2
  item : ∀ {items}, Q (.array items) → ∀ d ∈ items, Q d

namespace Hereditary

variable {Q : Definition δ → Prop} {names : List String} {x : Definition δ}

mutual

theorem leafAt (h : Hereditary Q) {above : List String} :
    ∀ d : Definition δ, Q d → Node.leaf names x ∈ nodesAt typeKey above d → Q x
  | .object (f :: fs), hd, hx => by
    rw [nodesAt] at hx
    split at hx
    · rcases List.mem_cons.1 hx with hx | hx
      · cases hx
      · exact h.leaf (f :: fs) (h.field hd) hx
    · cases List.mem_singleton.1 hx
      exact hd
  | .object [], hd, hx => by
    cases List.mem_singleton.1 hx
    exact hd
  | .literal v, hd, hx => by
    cases List.mem_singleton.1 hx
    exact hd
  | .array items, hd, hx => by
    cases List.mem_singleton.1 hx
    exact hd
  | .type t, hd, hx => by
    cases List.mem_singleton.1 hx
    exact hd
  | .schema s, hd, hx => by
    cases List.mem_singleton.1 hx
    exact hd

theorem leaf (h : Hereditary Q) {above : List String} : ∀ fields : List (String × Definition δ),
    (∀ e ∈ fields, Q e.2) → Node.leaf names x ∈ nodes typeKey above fields → Q x
  | [], _, hx => by cases hx
  | (key, d) :: rest, hf, hx => by
    rw [nodes, List.mem_append] at hx
    rcases hx with hx | hx
    · exact h.leafAt d (hf _ List.mem_cons_self) hx
    · exact h.leaf rest (fun e he => hf e (List.mem_cons_of_mem _ he)) hx

end

/-- What the record of a field holds. -/
theorem record (h : Hereditary Q) {d : Definition δ} (hd : Q d) : ∀ e ∈ d.record typeKey, Q e.2 := by
  intro e he
  cases d with
  | object fields =>
    rw [Definition.record, unwrapped] at he
    split at he
    · next inner hi =>
      split at he
      · exact h.field hd e he
      · have stated := Table.mem_of_get? (get?_of_statedType? hi)
        exact h.field (h.field hd _ stated) e he
    · exact h.field hd e he
  | array items =>
    cases List.mem_singleton.1 he
    exact hd
  | type t =>
    cases List.mem_singleton.1 he
    exact hd
  | schema s =>
    cases List.mem_singleton.1 he
    exact hd
  | literal v =>
    cases List.mem_singleton.1 he
    exact hd

/-- The element of an array that a record declares. -/
theorem element (h : Hereditary Q) {path : String} {record : Table (Definition δ)}
    (hr : ∀ e ∈ record, Q e.2) (hx : shape typeKey path record = .ok (.arrayOf x)) : Q x := by
  rcases shape_eq_arrayOf hx with ⟨items, ht, hi⟩ | ⟨-, -, -, hc⟩
  · exact h.item (hr _ (Table.mem_of_get? (get?_of_statedType? ht))) x hi
  · exact hr _ (Table.mem_of_get? hc)

end Hereditary

mutual

theorem not_inline_of_leafAt {names above : List String} {x : Definition δ} :
    ∀ d : Definition δ, Node.leaf names x ∈ nodesAt typeKey above d → isInline typeKey x = false
  | .object (f :: fs), hx => by
    rw [nodesAt] at hx
    split at hx
    · rcases List.mem_cons.1 hx with hx | hx
      · cases hx
      · exact not_inline_of_leaf (f :: fs) hx
    · next group =>
      cases List.mem_singleton.1 hx
      simpa [isInline] using group
  | .object [], hx => by
    cases List.mem_singleton.1 hx
    rfl
  | .literal v, hx => by
    cases List.mem_singleton.1 hx
    rfl
  | .array items, hx => by
    cases List.mem_singleton.1 hx
    rfl
  | .type t, hx => by
    cases List.mem_singleton.1 hx
    rfl
  | .schema s, hx => by
    cases List.mem_singleton.1 hx
    rfl

/-- No leaf is a group of fields. -/
theorem not_inline_of_leaf {names above : List String} {x : Definition δ} :
    ∀ fields : List (String × Definition δ), Node.leaf names x ∈ nodes typeKey above fields →
      isInline typeKey x = false
  | [], hx => by cases hx
  | (key, d) :: rest, hx => by
    rw [nodes, List.mem_append] at hx
    rcases hx with hx | hx
    · exact not_inline_of_leafAt d hx
    · exact not_inline_of_leaf rest hx

end

end Definition

end DocSchema
