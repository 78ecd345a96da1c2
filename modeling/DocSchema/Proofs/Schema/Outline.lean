import DocSchema.Proofs.Path.Below
import DocSchema.Proofs.Tree.Planting
import DocSchema.Schema.Compile

/-!
# The outline of a definition

The groups and the leaves of an object in preorder, each with the keys that lead to it. Paths come
in only where the keys are joined (`entries_eq`), so how the nodes of a definition lie to one
another can be read off the keys: where the keys of every object are distinct, two nodes never stand
for the same path and no leaf lies above another node (`pairwise_apart`).

The leaves of an outline planted into an empty tree make the tree of the definition (`plant_nodes`).
-/

namespace DocSchema

variable {δ : Type}

/-- A node of a definition, with the keys that lead to it. -/
inductive Node (δ : Type) where
  | group (names : List String)
  | leaf (names : List String) (d : Definition δ)

namespace Node

def names : Node δ → List String
  | .group names => names
  | .leaf names _ => names

def path (n : Node δ) : String := Path.join n.names

def isLeaf : Node δ → Bool
  | .group _ => false
  | .leaf _ _ => true

/-- A node seen from further up. -/
def under (above : List String) : Node δ → Node δ
  | .group names => .group (above ++ names)
  | .leaf names d => .leaf (above ++ names) d

def entry (n : Node δ) : Entry δ Unit :=
  match n with
  | .group names => .group (Path.join names)
  | .leaf names (.literal .null) => .missing (Path.join names)
  | .leaf names (.array [.literal .null]) => .missingItem (Path.join names)
  | .leaf names d => .field (Path.join names) d ()

end Node

namespace Definition

mutual

/-- The nodes of the fields of an object, in preorder. -/
def nodes (typeKey : String) (above : List String) : List (String × Definition δ) → List (Node δ)
  | [] => []
  | (key, d) :: rest => nodesAt typeKey (above ++ [key]) d ++ nodes typeKey above rest

/-- The nodes of one definition, in preorder. -/
def nodesAt (typeKey : String) (names : List String) : Definition δ → List (Node δ)
  | .object (f :: fs) =>
    if isGroup (f :: fs) typeKey then .group names :: nodes typeKey names (f :: fs)
    else [.leaf names (.object (f :: fs))]
  | d => [.leaf names d]

end

mutual

/-- Whether the keys of an object and of all groups in it are distinct and have no dots. -/
def PlainKeys (typeKey : String) : List (String × Definition δ) → Prop
  | [] => True
  | (key, d) :: rest =>
    '.' ∉ key.toList ∧ key ∉ rest.map Prod.fst ∧ PlainAt typeKey d ∧ PlainKeys typeKey rest

/-- Whether the keys of a group, if a definition is one, are distinct and have no dots. -/
def PlainAt (typeKey : String) : Definition δ → Prop
  | .object (f :: fs) => isGroup (f :: fs) typeKey = true → PlainKeys typeKey (f :: fs)
  | _ => True

end

/-! ### Entries -/

/-- The text that the paths below some keys start with. -/
def frontOf (above : List String) : String :=
  if above = [] then "" else Path.join above ++ "."

theorem frontOf_append (above : List String) (key : String) :
    frontOf above ++ key = Path.join (above ++ [key]) := by
  unfold frontOf
  split
  · next h =>
    subst h
    rw [List.nil_append, Path.join_singleton, String.empty_append]
  · next h => rw [Path.join_append h (List.cons_ne_nil key []), Path.join_singleton, Path.below]

theorem frontOf_of_ne_nil {names : List String} (h : names ≠ []) :
    frontOf names = Path.join names ++ "." := by
  rw [frontOf, if_neg h]

mutual

theorem entriesAt_eq (typeKey : String) (names : List String) (hn : names ≠ []) :
    ∀ d : Definition δ, entriesAt typeKey (Path.join names) d =
      (nodesAt typeKey names d).map Node.entry
  | .object (f :: fs) => by
    rw [entriesAt, nodesAt]
    split
    · rw [List.map_cons, ← entries_eq typeKey names (f :: fs), frontOf_of_ne_nil hn]
      rfl
    · rfl
  | .object [] => rfl
  | .literal v => by cases v <;> rfl
  | .array items => by
    rw [nodesAt, List.map_singleton]
    · unfold entriesAt Node.entry
      split <;> simp_all
    · simp
  | .type t => rfl
  | .schema s => rfl

/-- The entries of an object are those of its nodes, in the same order. -/
theorem entries_eq (typeKey : String) (above : List String) :
    ∀ fields : List (String × Definition δ), entries typeKey (frontOf above) fields =
      (nodes typeKey above fields).map Node.entry
  | [] => rfl
  | (key, d) :: rest => by
    rw [entries, nodes, List.map_append, frontOf_append, entries_eq typeKey above rest,
      entriesAt_eq typeKey (above ++ [key]) (by simp) d]

end

/-! ### How nodes lie to one another -/

mutual

theorem prefix_of_mem_nodesAt (typeKey : String) (names : List String) :
    ∀ d : Definition δ, ∀ n ∈ nodesAt typeKey names d, names <+: n.names
  | .object (f :: fs), n, hn => by
    rw [nodesAt] at hn
    split at hn
    · rcases List.mem_cons.1 hn with rfl | hn
      · exact List.prefix_refl _
      · obtain ⟨key, -, hp⟩ := prefix_of_mem_nodes typeKey names (f :: fs) n hn
        exact (List.prefix_append names [key]).trans hp
    · rw [List.mem_singleton.1 hn]
      exact List.prefix_refl _
  | .object [], n, hn => by rw [List.mem_singleton.1 hn]; exact List.prefix_refl _
  | .literal v, n, hn => by rw [List.mem_singleton.1 hn]; exact List.prefix_refl _
  | .array items, n, hn => by rw [List.mem_singleton.1 hn]; exact List.prefix_refl _
  | .type t, n, hn => by rw [List.mem_singleton.1 hn]; exact List.prefix_refl _
  | .schema s, n, hn => by rw [List.mem_singleton.1 hn]; exact List.prefix_refl _

/-- Every node lies at or below one of the keys of the object. -/
theorem prefix_of_mem_nodes (typeKey : String) (above : List String) :
    ∀ fields : List (String × Definition δ), ∀ n ∈ nodes typeKey above fields,
      ∃ key ∈ fields.map Prod.fst, above ++ [key] <+: n.names
  | (key, d) :: rest, n, hn => by
    rw [nodes, List.mem_append] at hn
    rcases hn with hn | hn
    · exact ⟨key, List.mem_cons_self, prefix_of_mem_nodesAt typeKey (above ++ [key]) d n hn⟩
    · obtain ⟨other, hm, hp⟩ := prefix_of_mem_nodes typeKey above rest n hn
      exact ⟨other, List.mem_cons_of_mem _ hm, hp⟩

end

end Definition

/-- Whether two nodes can stand beside one another. -/
structure Node.Apart (a b : Node δ) : Prop where
  names_ne : a.names ≠ b.names
  not_above : a.isLeaf = true → ¬ a.names <+: b.names
  not_below : b.isLeaf = true → ¬ b.names <+: a.names

theorem not_prefix_of_keys {x y above : List String} {k k' : String} (hk : k ≠ k')
    (hx : above ++ [k] <+: x) (hy : above ++ [k'] <+: y) : ¬ x <+: y := by
  intro h
  have same : above ++ [k] <+: above ++ [k'] :=
    List.prefix_of_prefix_length_le (hx.trans h) hy (by simp)
  exact hk (by simpa using same.eq_of_length (by simp))

/-- Nodes below different keys can stand beside one another. -/
theorem Node.apart_of_keys {a b : Node δ} {above : List String} {k k' : String} (hk : k ≠ k')
    (ha : above ++ [k] <+: a.names) (hb : above ++ [k'] <+: b.names) : a.Apart b where
  names_ne h := not_prefix_of_keys hk ha hb (h ▸ List.prefix_refl _)
  not_above _ := not_prefix_of_keys hk ha hb
  not_below _ := not_prefix_of_keys (Ne.symm hk) hb ha

/-- A group can stand above nodes. -/
theorem Node.apart_of_group {names : List String} {key : String} {b : Node δ}
    (hb : names ++ [key] <+: b.names) : (Node.group names).Apart b := by
  have longer : ¬ b.names <+: names := by
    intro h
    have shorter := (hb.trans h).length_le
    rw [List.length_append, List.length_singleton] at shorter
    omega
  exact ⟨fun h => longer (h ▸ List.prefix_refl _), fun h => (by cases h), fun _ => longer⟩

/-- Whether no key that leads to a node has a dot, and some key does. -/
structure Node.Plain (n : Node δ) : Prop where
  some_key : n.names ≠ []
  no_dots : ∀ k ∈ n.names, '.' ∉ k.toList

theorem Node.Plain.segments_path {n : Node δ} (h : n.Plain) : Path.segments n.path = n.names :=
  Path.segments_join n.names h.some_key h.no_dots

/-- Two nodes have the same full name only if the same keys lead to them. -/
theorem Node.Plain.path_inj {a b : Node δ} (ha : a.Plain) (hb : b.Plain) (h : a.path = b.path) :
    a.names = b.names := by
  rw [← ha.segments_path, ← hb.segments_path, h]

namespace Definition

mutual

theorem plain_nodesAt (typeKey : String) {names : List String} (hn : names ≠ [])
    (hd : ∀ k ∈ names, '.' ∉ k.toList) :
    ∀ d : Definition δ, PlainAt typeKey d → ∀ n ∈ nodesAt typeKey names d, n.Plain
  | .object (f :: fs), hp, n, hm => by
    rw [nodesAt] at hm
    split at hm
    · next hg =>
      rcases List.mem_cons.1 hm with rfl | hm
      · exact ⟨hn, hd⟩
      · exact plain_nodes typeKey hd (f :: fs) (hp hg) n hm
    · rw [List.mem_singleton.1 hm]
      exact ⟨hn, hd⟩
  | .object [], _, n, hm => by rw [List.mem_singleton.1 hm]; exact ⟨hn, hd⟩
  | .literal v, _, n, hm => by rw [List.mem_singleton.1 hm]; exact ⟨hn, hd⟩
  | .array items, _, n, hm => by rw [List.mem_singleton.1 hm]; exact ⟨hn, hd⟩
  | .type t, _, n, hm => by rw [List.mem_singleton.1 hm]; exact ⟨hn, hd⟩
  | .schema s, _, n, hm => by rw [List.mem_singleton.1 hm]; exact ⟨hn, hd⟩

theorem plain_nodes (typeKey : String) {above : List String}
    (hd : ∀ k ∈ above, '.' ∉ k.toList) :
    ∀ fields : List (String × Definition δ), PlainKeys typeKey fields →
      ∀ n ∈ nodes typeKey above fields, n.Plain
  | (key, d) :: rest, hp, n, hm => by
    obtain ⟨dots, -, here, others⟩ := hp
    rw [nodes, List.mem_append] at hm
    rcases hm with hm | hm
    · refine plain_nodesAt typeKey (by simp) (fun k hk => ?_) d here n hm
      rcases List.mem_append.1 hk with hk | hk
      · exact hd k hk
      · rw [List.mem_singleton.1 hk]
        exact dots
    · exact plain_nodes typeKey hd rest others n hm

end

mutual

theorem pairwise_apart_at (typeKey : String) (names : List String) :
    ∀ d : Definition δ, PlainAt typeKey d → (nodesAt typeKey names d).Pairwise Node.Apart
  | .object (f :: fs), hp => by
    rw [nodesAt]
    split
    · next hg =>
      refine List.pairwise_cons.2 ⟨fun n hm => ?_, pairwise_apart typeKey names (f :: fs) (hp hg)⟩
      obtain ⟨key, -, hk⟩ := prefix_of_mem_nodes typeKey names (f :: fs) n hm
      exact Node.apart_of_group hk
    · exact List.pairwise_singleton _ _
  | .object [], _ => List.pairwise_singleton _ _
  | .literal v, _ => List.pairwise_singleton _ _
  | .array items, _ => List.pairwise_singleton _ _
  | .type t, _ => List.pairwise_singleton _ _
  | .schema s, _ => List.pairwise_singleton _ _

/-- The nodes of a definition can all stand beside one another. -/
theorem pairwise_apart (typeKey : String) (above : List String) :
    ∀ fields : List (String × Definition δ), PlainKeys typeKey fields →
      (nodes typeKey above fields).Pairwise Node.Apart
  | [], _ => List.Pairwise.nil
  | (key, d) :: rest, hp => by
    obtain ⟨-, fresh, here, others⟩ := hp
    rw [nodes, List.pairwise_append]
    refine ⟨pairwise_apart_at typeKey _ d here, pairwise_apart typeKey above rest others, ?_⟩
    intro a ha b hb
    obtain ⟨other, hm, hb⟩ := prefix_of_mem_nodes typeKey above rest b hb
    have ne : key ≠ other := by
      rintro rfl
      exact fresh hm
    exact Node.apart_of_keys ne (prefix_of_mem_nodesAt typeKey _ d a ha) hb

end

/-! ### The tree of a definition -/

mutual

theorem nodesAt_under (typeKey : String) (above names : List String) :
    ∀ d : Definition δ, nodesAt typeKey (above ++ names) d =
      (nodesAt typeKey names d).map (Node.under above)
  | .object (f :: fs) => by
    rw [nodesAt, nodesAt]
    split
    · rw [nodes_under typeKey above names (f :: fs)]
      rfl
    · rfl
  | .object [] => rfl
  | .literal v => rfl
  | .array items => rfl
  | .type t => rfl
  | .schema s => rfl

/-- The nodes of an object further down are those of the object by itself, with more keys before. -/
theorem nodes_under (typeKey : String) (above names : List String) :
    ∀ fields : List (String × Definition δ), nodes typeKey (above ++ names) fields =
      (nodes typeKey names fields).map (Node.under above)
  | [] => rfl
  | (key, d) :: rest => by
    rw [nodes, nodes, List.map_append, List.append_assoc, nodesAt_under typeKey above _ d,
      nodes_under typeKey above names rest]

end

mutual

def toTree (typeKey : String) : List (String × Definition δ) → Table (Tree (Definition δ))
  | [] => []
  | (key, d) :: rest => (key, toNode typeKey d) :: toTree typeKey rest

def toNode (typeKey : String) : Definition δ → Tree (Definition δ)
  | .object (f :: fs) =>
    if isGroup (f :: fs) typeKey then .branch (toTree typeKey (f :: fs))
    else .field (.object (f :: fs))
  | d => .field d

end

mutual

theorem nodeJson_toNode (typeKey : String) :
    ∀ d : Definition δ, nodeJson (toNode typeKey d) = d.toJson
  | .object (f :: fs) => by
    rw [toNode]
    split
    · rw [nodeJson, treeJson_toTree typeKey (f :: fs), toJson]
    · rw [nodeJson]
  | .object [] => rfl
  | .literal v => rfl
  | .array items => rfl
  | .type t => rfl
  | .schema s => rfl

/-- The tree of an object shows the object itself. -/
theorem treeJson_toTree (typeKey : String) :
    ∀ fields : List (String × Definition δ), treeJson (toTree typeKey fields) = fieldsJson fields
  | [] => rfl
  | (key, d) :: rest => by
    rw [toTree, treeJson, fieldsJson, nodeJson_toNode typeKey d, treeJson_toTree typeKey rest]

end

def leaves : List (Node δ) → List (List String × Definition δ)
  | [] => []
  | .group _ :: rest => leaves rest
  | .leaf names d :: rest => (names, d) :: leaves rest

theorem leaves_append (a b : List (Node δ)) : leaves (a ++ b) = leaves a ++ leaves b := by
  induction a with
  | nil => rfl
  | cons n a ih => cases n <;> simp [leaves, ih]

theorem leaves_under (above : List String) (ns : List (Node δ)) :
    leaves (ns.map (Node.under above)) =
      (leaves ns).map fun leaf => (above ++ leaf.1, leaf.2) := by
  induction ns with
  | nil => rfl
  | cons n ns ih => cases n <;> simp [leaves, Node.under, ih]

theorem mem_leaves {ns : List (Node δ)} {leaf : List String × Definition δ} :
    leaf ∈ leaves ns ↔ Node.leaf leaf.1 leaf.2 ∈ ns := by
  induction ns with
  | nil => simp [leaves]
  | cons n ns ih =>
    obtain ⟨names, d⟩ := leaf
    cases n <;> simp [leaves, ih]

mutual

theorem plant_nodesAt (typeKey key : String) (d : Definition δ) (hp : PlainAt typeKey d)
    {root : Table (Tree (Definition δ))} (free : Table.get? root key = none) :
    Tree.plant (leaves (nodesAt typeKey [key] d)) root =
      .ok (root ++ [(key, toNode typeKey d)]) := by
  have new (x : Tree (Definition δ)) : Table.insert root key x = root ++ [(key, x)] :=
    Table.insert_of_not_contains x ((Table.get?_eq_none_iff root key).1 free)
  match d with
  | .object (f :: fs) =>
    rw [nodesAt, toNode]
    split
    · next hg =>
      have inner := plant_nodes typeKey (f :: fs) (hp hg) [] fun _ _ => rfl
      have hn : ∀ leaf ∈ leaves (nodes typeKey [] (f :: fs)), leaf.1 ≠ [] := fun leaf hl =>
        (plain_nodes typeKey (by simp) (f :: fs) (hp hg) _ (mem_leaves.1 hl)).some_key
      -- without leaves nothing would be planted, but the tree of the group is not empty
      have hne : leaves (nodes typeKey [] (f :: fs)) ≠ [] := by
        intro h
        rw [h] at inner
        cases Except.ok.inj inner
      have under : nodes typeKey [key] (f :: fs) = (nodes typeKey [] (f :: fs)).map
          (Node.under [key]) := nodes_under typeKey [key] [] (f :: fs)
      rw [leaves, under, leaves_under]
      exact (Tree.plant_under hne hn (Tree.inner?_of_free free) inner).trans (congrArg _ (new _))
    · rw [← new]
      rfl
  | .object [] => rw [← new]; rfl
  | .literal v => rw [← new]; rfl
  | .array items => rw [← new]; rfl
  | .type t => rw [← new]; rfl
  | .schema s => rw [← new]; rfl

/-- Planting the leaves of an object makes its tree. -/
theorem plant_nodes (typeKey : String) (fields : List (String × Definition δ))
    (hp : PlainKeys typeKey fields) (root : Table (Tree (Definition δ)))
    (free : ∀ key ∈ fields.map Prod.fst, Table.get? root key = none) :
    Tree.plant (leaves (nodes typeKey [] fields)) root = .ok (root ++ toTree typeKey fields) := by
  match fields with
  | [] => rw [nodes, leaves, toTree, List.append_nil, Tree.plant]
  | (key, d) :: rest =>
    obtain ⟨-, fresh, here, others⟩ := hp
    have unbound := free key List.mem_cons_self
    have first := plant_nodesAt typeKey key d here unbound
    have new : root ++ [(key, toNode typeKey d)] = Table.insert root key (toNode typeKey d) :=
      (Table.insert_of_not_contains _ ((Table.get?_eq_none_iff root key).1 unbound)).symm
    -- the key is taken now, but the other keys are not
    have vacant : ∀ k ∈ rest.map Prod.fst,
        Table.get? (root ++ [(key, toNode typeKey d)]) k = none := fun k hk => by
      have ne : k ≠ key := by
        rintro rfl
        exact fresh hk
      rw [new, Table.get?_insert_of_ne _ _ ne]
      exact free k (List.mem_cons_of_mem _ hk)
    have second := plant_nodes typeKey rest others (root ++ [(key, toNode typeKey d)]) vacant
    rw [nodes, leaves_append, Tree.plant_append, List.nil_append, first]
    show Tree.plant _ (root ++ [(key, toNode typeKey d)]) = _
    rw [second, toTree, List.append_assoc]
    rfl

end

end Definition

end DocSchema
