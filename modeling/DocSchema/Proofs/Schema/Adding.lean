import DocSchema.Document.Memory
import DocSchema.Proofs.Schema.Founded
import DocSchema.Proofs.Schema.Groups
import DocSchema.Proofs.Schema.Outline

/-!
# Adding an object to an empty schema

What `add` does is read off the outline of the object: it declares its nodes in preorder, up to the
first leaf that cannot be declared. `Done` describes the schema after some nodes; one more node
keeps it (`Done.group`, `Done.leaf`), and a leaf that is refused leaves the fields and groups as
they were (`Done.refuse`). That nodes do not get into the way of one another is known from the
outline alone (`Outlined`), so a leaf is refused for nothing but itself. Where `cast` is the type
key, the type of a leaf may also be one that is never found, and then the call does not return
(`add_tags_endless`).
-/

namespace DocSchema

open Definition

variable {δ : Type}

/-- The full names of the groups among some nodes. -/
def groupNames : List (Node δ) → List String
  | [] => []
  | .group names :: rest => Path.join names :: groupNames rest
  | .leaf _ _ :: rest => groupNames rest

theorem groupNames_append (a b : List (Node δ)) :
    groupNames (a ++ b) = groupNames a ++ groupNames b := by
  induction a with
  | nil => rfl
  | cons n a ih => cases n <;> simp [groupNames, ih]

theorem mem_groupNames {ns : List (Node δ)} {path : String} (h : path ∈ groupNames ns) :
    ∃ names, Node.group names ∈ ns ∧ path = Path.join names := by
  induction ns with
  | nil => cases h
  | cons n ns ih =>
    cases n with
    | leaf names d =>
      obtain ⟨names, hm, hp⟩ := ih h
      exact ⟨names, List.mem_cons_of_mem _ hm, hp⟩
    | group names =>
      rcases List.mem_cons.1 h with h | h
      · exact ⟨names, List.mem_cons_self, h⟩
      · obtain ⟨names, hm, hp⟩ := ih h
        exact ⟨names, List.mem_cons_of_mem _ hm, hp⟩

theorem mem_groupNames_of_mem {ns : List (Node δ)} {names : List String}
    (h : Node.group names ∈ ns) : Path.join names ∈ groupNames ns := by
  induction ns with
  | nil => cases h
  | cons n ns ih =>
    rcases List.mem_cons.1 h with rfl | later
    · exact List.mem_cons_self
    · cases n with
      | leaf names d => exact ih later
      | group names => exact List.mem_cons_of_mem _ (ih later)

/-- Some nodes that do not get into the way of one another. -/
structure Outlined (ns : List (Node δ)) : Prop where
  plain : ∀ n ∈ ns, n.Plain
  apart : ns.Pairwise Node.Apart
  plants : ∃ tree, Tree.plant (leaves ns) [] = .ok tree

/-- No two leaves have the same full name. -/
theorem Outlined.distinct_leaves {ns post : List (Node δ)} (h : Outlined (ns ++ post)) :
    ((leaves ns).map fun leaf => Path.join leaf.1).Nodup := by
  have plain := fun n hn => h.plain n (List.mem_append_left post hn)
  have apart := (List.pairwise_append.1 h.apart).1
  clear h
  induction ns with
  | nil => exact List.nodup_nil
  | cons n ns ih =>
    obtain ⟨first, others⟩ := List.pairwise_cons.1 apart
    have ih := ih (fun m hm => plain m (List.mem_cons_of_mem _ hm)) others
    cases n with
    | group names => exact ih
    | leaf names d =>
      refine List.nodup_cons.2 ⟨fun hm => ?_, ih⟩
      obtain ⟨leaf, hl, he⟩ := List.mem_map.1 hm
      have hb := mem_leaves.1 hl
      have here := plain (.leaf names d) List.mem_cons_self
      have there := plain _ (List.mem_cons_of_mem _ hb)
      exact (first _ hb).names_ne (here.path_inj there he.symm)

theorem outlined_nodes {typeKey : String} {fields : List (String × Definition δ)}
    (plain : PlainKeys typeKey fields) : Outlined (nodes typeKey [] fields) where
  plain := plain_nodes typeKey (by simp) fields plain
  apart := pairwise_apart typeKey [] fields plain
  plants := ⟨_, plant_nodes typeKey fields plain [] fun _ _ => rfl⟩

theorem Schema.registerAll_append_ok {s s₁ : Schema δ} {es es' : List (Schema.TypedEntry δ)}
    (h : s.registerAll es = (s₁, .ok ())) : s.registerAll (es ++ es') = s₁.registerAll es' := by
  induction es generalizing s with
  | nil =>
    cases h
    rfl
  | cons e es ih =>
    rw [Schema.registerAll] at h
    rw [List.cons_append, Schema.registerAll]
    revert h
    rcases s.register e with ⟨s₂, err | u⟩
    · intro h
      cases h
    · exact fun h => ih h

variable [Document δ]

namespace Node

/-- The error of a node that cannot be declared by itself. -/
def error? (o : Options) (n : Node δ) : Option SchemaError :=
  match n with
  | .group _ => none
  | .leaf names (.literal .null) => some (.invalidPath (Path.join names) false)
  | .leaf names (.array [.literal .null]) => some (.invalidPath (Path.join names) true)
  | .leaf names d =>
    if Path.isReserved (Path.join names) then some (.reservedName (Path.join names))
    else
      match d.typeAt o (Path.join names) with
      | .ok _ => none
      | .error e => some e

def typed (o : Options) (n : Node δ) : Schema.TypedEntry δ :=
  n.entry.withType fun p x => x.typeAt o p

/-- A leaf is refused at once, or it is declared as a field and then its name and its type decide.
-/
theorem leaf_cases (o : Options) (names : List String) (d : Definition δ) :
    ((Node.leaf names d).typed o = .missing (Path.join names) ∧
        (Node.leaf names d).error? o = some (.invalidPath (Path.join names) false)) ∨
      ((Node.leaf names d).typed o = .missingItem (Path.join names) ∧
        (Node.leaf names d).error? o = some (.invalidPath (Path.join names) true)) ∨
      ((Node.leaf names d).typed o = .field (Path.join names) d (d.typeAt o (Path.join names)) ∧
        (Node.leaf names d).error? o =
          if Path.isReserved (Path.join names) then some (.reservedName (Path.join names))
          else match d.typeAt o (Path.join names) with
            | .ok _ => none
            | .error e => some e) := by
  by_cases isNull : d = .literal .null
  · subst isNull
    exact .inl ⟨rfl, rfl⟩
  · by_cases holdsNull : d = .array [.literal .null]
    · subst holdsNull
      exact .inr (.inl ⟨rfl, rfl⟩)
    · refine .inr (.inr ⟨?_, ?_⟩)
      · rw [typed, entry]
        · rfl
        · exact isNull
        · exact holdsNull
      · rw [error?]
        · exact isNull
        · exact holdsNull

end Node

/-! ### What is declared -/

def leafTypes (o : Options) (ns : List (Node δ)) :
    List (String × Except SchemaError (FieldType δ)) :=
  (leaves ns).map fun leaf => (Path.join leaf.1, leaf.2.typeAt o (Path.join leaf.1))

/-- A schema on which exactly some nodes were declared. -/
structure Done (o : Options) (ns : List (Node δ)) (s : Schema δ) : Prop where
  options : s.options = o
  fields : s.fields.map (fun e => (e.1, Except.ok e.2)) = leafTypes o ns
  groups : s.groups = groupNames ns
  virtuals : s.virtuals = []
  planted : Tree.plant (leaves ns) [] = .ok s.tree

namespace Done

variable {o : Options} {pre post : List (Node δ)} {n : Node δ} {s s' : Schema δ}

theorem keys_eq (h : Done o pre s) :
    Table.keys s.fields = (leaves pre).map fun leaf => Path.join leaf.1 :=
  calc Table.keys s.fields
      = (s.fields.map fun e => (e.1, Except.ok (ε := SchemaError) e.2)).map Prod.fst := by
        rw [List.map_map]
        rfl
    _ = (leafTypes o pre).map Prod.fst := by rw [h.fields]
    _ = (leaves pre).map fun leaf => Path.join leaf.1 := by
        rw [leafTypes, List.map_map]
        rfl

theorem distinct (h : Done o pre s) (ready : Outlined (pre ++ post)) :
    (Table.keys s.fields).Nodup := by
  rw [h.keys_eq]
  exact ready.distinct_leaves

/-- The name of a further node is no field yet. -/
theorem not_field (h : Done o pre s) (ready : Outlined (pre ++ n :: post)) :
    Table.contains s.fields n.path = false := by
  rw [Bool.eq_false_iff, ne_eq, Table.contains_iff_mem_keys]
  intro hm
  rw [h.keys_eq] at hm
  obtain ⟨leaf, hl, he⟩ := List.mem_map.1 hm
  have hb := mem_leaves.1 hl
  have apart := (List.pairwise_append.1 ready.apart).2.2 _ hb n List.mem_cons_self
  have plain := ready.plain _ (List.mem_append_left _ hb)
  exact apart.names_ne (plain.path_inj (ready.plain n (by simp)) he)

/-- The name of a further node is no group yet. -/
theorem not_group (h : Done o pre s) (ready : Outlined (pre ++ n :: post)) :
    n.path ∉ s.groups := by
  rw [h.groups]
  intro hm
  obtain ⟨names, hb, he⟩ := mem_groupNames hm
  have apart := (List.pairwise_append.1 ready.apart).2.2 _ hb n List.mem_cons_self
  have plain := ready.plain _ (List.mem_append_left _ hb)
  exact apart.names_ne (plain.path_inj (ready.plain n (by simp)) he.symm)

theorem group {names : List String} (h : Done o pre s)
    (ready : Outlined (pre ++ .group names :: post)) :
    ∃ s', s.register ((Node.group names).typed o) = (s', .ok ()) ∧
      Done o (pre ++ [.group names]) s' := by
  have free : Table.get? s.fields (Path.join names) = none :=
    (Table.get?_eq_none_iff _ _).2 (h.not_field ready)
  have new : Path.join names ∉ s.groups := h.not_group ready
  refine ⟨{ s with groups := s.groups ++ [Path.join names] }, ?_, h.options, ?_, ?_, h.virtuals, ?_⟩
  · have added : Schema.addName s.groups (Path.join names) = s.groups ++ [Path.join names] := by
      rw [Schema.addName, if_neg (by simpa using new)]
    show Schema.register s (.group (Path.join names)) = _
    rw [Schema.register, free, ← added]
  · rw [leafTypes, leaves_append, leaves, leaves, List.append_nil]
    exact h.fields
  · rw [groupNames_append, h.groups]
    rfl
  · rw [leaves_append, leaves, leaves, List.append_nil]
    exact h.planted

/-- A leaf whose name is not reserved is bound in the tree. -/
theorem place {names : List String} {d : Definition δ} (h : Done o pre s)
    (ready : Outlined (pre ++ .leaf names d :: post))
    (allowed : Path.isReserved (Path.join names) = false) :
    ∃ tree, s.place (Path.join names) d = .ok { s with tree := tree } ∧
      Tree.plant (leaves (pre ++ [.leaf names d])) [] = .ok tree := by
  -- all leaves of the outline can be planted, so this one can after those before it
  obtain ⟨all, hall⟩ := ready.plants
  rw [leaves_append] at hall
  obtain ⟨root, hroot, hrest⟩ := Tree.plant_append_ok hall
  rw [h.planted] at hroot
  cases hroot
  obtain ⟨tree, insert, -⟩ := Tree.plant_cons_ok hrest
  have plain := ready.plain (.leaf names d) (by simp)
  have segments : Path.segments (Path.join names) = names := plain.segments_path
  have apart : ∀ leaf ∈ leaves pre, ¬ names <+: leaf.1 ∧ ¬ leaf.1 <+: names := fun leaf hl => by
    have apart := (List.pairwise_append.1 ready.apart).2.2 _ (mem_leaves.1 hl) _ List.mem_cons_self
    exact ⟨apart.not_below rfl, apart.not_above rfl⟩
  -- no leaf before this one lies above or below it, so its place is free
  have vacant : Tree.get? names s.tree = none := by
    have same := Tree.get?_plant (fun leaf hl =>
      (ready.plain _ (List.mem_append_left _ (mem_leaves.1 hl))).some_key) apart h.planted
    rw [same, Tree.get?_empty]
  have noGroup : Path.join names ∉ s.groups := h.not_group ready
  have free : s.isTaken (Path.join names) = false := by
    rw [Schema.isTaken, h.virtuals, segments, vacant]
    simpa [Table.contains] using noGroup
  refine ⟨tree, ?_, ?_⟩
  · rw [Schema.place, allowed, free, segments, insert]
    rfl
  · rw [leaves_append, Tree.plant_append, h.planted]
    show Tree.plant [(names, d)] s.tree = .ok tree
    rw [Tree.plant, insert]
    rfl

/-- Where nothing was declared, every path is free that is not reserved. -/
theorem place_first (h : Done o [] s) {path : String} (allowed : Path.isReserved path = false)
    (d : Definition δ) : ∃ bound, s.place path d = .ok bound := by
  have noTree : s.tree = [] := (Except.ok.inj h.planted).symm
  have free : s.isTaken path = false := by
    rw [Schema.isTaken, h.groups, h.virtuals, noTree, Tree.get?_empty]
    rfl
  obtain ⟨tree, planted⟩ := Tree.insertField_empty (Path.segments path) d
  rw [Schema.place, allowed, free, noTree, planted]
  exact ⟨_, rfl⟩

/-- A leaf that is accepted by itself is declared. -/
theorem leaf {names : List String} {d : Definition δ} (h : Done o pre s)
    (ready : Outlined (pre ++ .leaf names d :: post))
    (accepted : (Node.leaf names d).error? o = none) :
    ∃ s', s.register ((Node.leaf names d).typed o) = (s', .ok ()) ∧
      Done o (pre ++ [.leaf names d]) s' := by
  rcases Node.leaf_cases o names d with ⟨-, he⟩ | ⟨-, he⟩ | ⟨entry, he⟩
  · rw [he] at accepted
    cases accepted
  · rw [he] at accepted
    cases accepted
  · rw [he] at accepted
    split at accepted
    · cases accepted
    · next allowed =>
      cases ht : d.typeAt o (Path.join names) with
      | error e =>
        rw [ht] at accepted
        cases accepted
      | ok t =>
        obtain ⟨tree, placed, planted⟩ := h.place ready (by simpa using allowed)
        refine ⟨{ s with tree := tree }.adopt (Path.join names) t, ?_, ?_, ?_, ?_, ?_, ?_⟩
        · rw [entry, ht, Schema.register, Schema.declareAs, placed]
        · rw [Schema.options_adopt]
          exact h.options
        · have stored : Table.insert s.fields (Path.join names) t =
              s.fields ++ [(Path.join names, t)] :=
            Table.insert_of_not_contains t (h.not_field ready)
          rw [Schema.adopt_fields]
          show (Table.insert s.fields (Path.join names) t).map _ = _
          rw [stored, List.map_append, h.fields, leafTypes, leafTypes, leaves_append,
            List.map_append]
          simp [leaves, ht]
        · rw [Schema.adopt_groups, groupNames_append, h.groups]
          simp [groupNames]
        · rw [Schema.adopt_virtuals]
          exact h.virtuals
        · rw [Schema.adopt_tree]
          exact planted

/-- A leaf that is refused leaves the fields and the groups as they were. -/
theorem refuse {names : List String} {d : Definition δ} {e : SchemaError} (h : Done o pre s)
    (ready : Outlined (pre ++ .leaf names d :: post))
    (refused : (Node.leaf names d).error? o = some e) :
    ∃ s', s.register ((Node.leaf names d).typed o) = (s', .error e) ∧ s'.fields = s.fields ∧
      s'.groups = s.groups := by
  rcases Node.leaf_cases o names d with ⟨entry, he⟩ | ⟨entry, he⟩ | ⟨entry, he⟩
  · obtain rfl := Option.some.inj (he.symm.trans refused)
    exact ⟨s, by rw [entry]; rfl, rfl, rfl⟩
  · obtain rfl := Option.some.inj (he.symm.trans refused)
    exact ⟨s, by rw [entry]; rfl, rfl, rfl⟩
  · rw [he] at refused
    split at refused
    · next reserved =>
      obtain rfl := Option.some.inj refused
      refine ⟨s, ?_, rfl, rfl⟩
      rw [entry, Schema.register, Schema.declareAs, Schema.place, reserved]
      rfl
    · next allowed =>
      cases ht : d.typeAt o (Path.join names) with
      | ok t =>
        rw [ht] at refused
        cases refused
      | error e' =>
        rw [ht] at refused
        obtain rfl := Option.some.inj refused
        -- the path stays bound in the tree, but nothing else changes
        obtain ⟨tree, placed, -⟩ := h.place ready (by simpa using allowed)
        refine ⟨{ s with tree := tree }, ?_, rfl, rfl⟩
        rw [entry, ht, Schema.register, Schema.declareAs, placed]

/-- Nodes that are all accepted are all declared. -/
theorem registerAll : ∀ (ns pre : List (Node δ)) (s : Schema δ) (post : List (Node δ)),
    Done o pre s → Outlined (pre ++ ns ++ post) → (∀ n ∈ ns, n.error? o = none) →
      ∃ s', s.registerAll (ns.map (Node.typed o)) = (s', .ok ()) ∧ Done o (pre ++ ns) s'
  | [], pre, s, _, h, _, _ => ⟨s, rfl, by rwa [List.append_nil]⟩
  | n :: ns, pre, s, post, h, ready, accepted => by
    have ready₁ : Outlined (pre ++ n :: (ns ++ post)) := by simpa using ready
    have one : ∃ s', s.register (n.typed o) = (s', .ok ()) ∧ Done o (pre ++ [n]) s' := by
      cases n with
      | group names => exact h.group ready₁
      | leaf names d => exact h.leaf ready₁ (accepted _ List.mem_cons_self)
    obtain ⟨s₁, first, done⟩ := one
    obtain ⟨s', rest, done'⟩ := registerAll ns (pre ++ [n]) s₁ post done (by simpa using ready)
      fun m hm => accepted m (List.mem_cons_of_mem _ hm)
    refine ⟨s', ?_, by simpa using done'⟩
    rw [List.map_cons, Schema.registerAll, first]
    exact rest

end Done

/-! ### A whole object -/

namespace Schema

variable {o : Options} {s : Schema δ}

/-- Without an identifier and without times, the schema of nothing is empty. -/
theorem compile_nothing (field : o.idField = false) (virtual : o.idVirtual = false)
    (stamps : o.timestamps = .disabled) :
    ∃ s₀ : Schema δ, compile o (.object []) = .ok s₀ ∧ Done o [] s₀ := by
  refine ⟨(empty o : Schema δ).addBuiltIn, ?_, rfl, rfl, rfl, rfl, rfl⟩
  have noField : (empty o : Schema δ).addIdField = (empty o, .ok ()) := by
    simp [addIdField, empty, field]
  have noVirtual : (empty o : Schema δ).addIdVirtual = (empty o, .ok ()) := by
    simp [addIdVirtual, empty, virtual]
  have noTimes : (empty o : Schema δ).addBuiltIn.addStampFields =
      ((empty o).addBuiltIn, .ok ()) := by
    simp [addStampFields, addBuiltIn, empty, stamps, Timestamps.fields?]
  have noHook : (empty o : Schema δ).addBuiltIn.addStampHook = (empty o).addBuiltIn := by
    simp [addStampHook, addBuiltIn, empty, stamps, Timestamps.fields?]
  rw [compile, Definition.entries, List.map_nil, assemble, registerAll]
  dsimp only
  rw [noField]
  dsimp only
  rw [noVirtual]
  dsimp only
  rw [noTimes]
  dsimp only
  rw [noHook]

/-- What is added is what the nodes of the object declare. -/
theorem add_eq_registerAll (fields : List (String × Definition δ)) (h : s.options = o) :
    s.add (.object fields) "" =
      s.registerAll ((nodes o.typeKey [] fields).map (Node.typed o)) := by
  have entries := entries_eq o.typeKey [] fields
  rw [frontOf, if_pos rfl] at entries
  rw [add, h, entries, List.map_map]
  rfl

/-- What adding an object leaves behind, where some nodes were declared: their leaves are the
fields, each once and with its type, and their groups are the groups. -/
structure Declared (o : Options) (ns : List (Node δ)) (s : Schema δ) : Prop where
  fields : s.fields.map (fun e => (e.1, Except.ok e.2)) = leafTypes o ns
  distinct : (Table.keys s.fields).Nodup
  groups : s.groups = groupNames ns

theorem Declared.of_done {ns post : List (Node δ)} (h : Done o ns s)
    (ready : Outlined (ns ++ post)) : Declared o ns s :=
  ⟨h.fields, h.distinct ready, h.groups⟩

/-- Nodes that are all accepted are declared, and the tree is that of the object. -/
theorem add_accepted {fields : List (String × Definition δ)} (h : Done o [] s)
    (plain : PlainKeys o.typeKey fields)
    (accepted : ∀ n ∈ nodes o.typeKey [] fields, n.error? o = none) :
    ∃ s', s.add (.object fields) "" = (s', .ok ()) ∧ Declared o (nodes o.typeKey [] fields) s' ∧
      s'.treeJson = (Definition.object fields).toJson := by
  have ready : Outlined (nodes o.typeKey [] fields ++ []) := by
    rw [List.append_nil]
    exact outlined_nodes plain
  obtain ⟨s', run, done⟩ := Done.registerAll _ [] s [] h ready accepted
  have tree : s'.tree = toTree o.typeKey fields := by
    have planted := plant_nodes o.typeKey fields plain [] fun _ _ => rfl
    rw [← List.nil_append (nodes o.typeKey [] fields), done.planted] at planted
    exact Except.ok.inj planted
  refine ⟨s', by rw [add_eq_registerAll fields h.options, run], .of_done done ready, ?_⟩
  rw [treeJson, tree, treeJson_toTree, toJson]

/-- The first leaf that is refused ends the call, with its own error. -/
theorem add_refused {fields : List (String × Definition δ)} {pre post : List (Node δ)}
    {names : List String} {d : Definition δ} {e : SchemaError} (h : Done o [] s)
    (plain : PlainKeys o.typeKey fields)
    (outline : nodes o.typeKey [] fields = pre ++ .leaf names d :: post)
    (accepted : ∀ n ∈ pre, n.error? o = none) (refused : (Node.leaf names d).error? o = some e) :
    ∃ s', s.add (.object fields) "" = (s', .error e) ∧ Declared o pre s' := by
  have ready : Outlined (pre ++ .leaf names d :: post) := outline ▸ outlined_nodes plain
  obtain ⟨s₁, run, done⟩ := Done.registerAll pre [] s (.leaf names d :: post) h ready accepted
  obtain ⟨s', last, same_fields, same_groups⟩ := done.refuse ready refused
  refine ⟨s', ?_, ?_⟩
  · rw [add_eq_registerAll fields h.options, outline, List.map_append, registerAll_append_ok run,
      List.map_cons, registerAll, last]
  · have declared : Declared o pre s₁ := .of_done done ready
    exact ⟨same_fields ▸ declared.fields, same_fields ▸ declared.distinct,
      same_groups ▸ declared.groups⟩

/-- Adding an object to an empty schema declares the nodes of the object in preorder, up to the
first leaf that is refused by itself, or whose type is never found: this takes `cast` for the type
key. -/
theorem add_outline {fields : List (String × Definition δ)} (field : o.idField = false)
    (virtual : o.idVirtual = false) (stamps : o.timestamps = .disabled)
    (plain : PlainKeys o.typeKey fields) :
    ∃ s₀ : Schema δ, compile o (.object []) = .ok s₀ ∧
      ((s₀.add (.object fields) "").2 = .ok () ↔
        ∀ n ∈ nodes o.typeKey [] fields, n.error? o = none) ∧
      ((s₀.add (.object fields) "").2 = .ok () →
        Declared o (nodes o.typeKey [] fields) (s₀.add (.object fields) "").1 ∧
          (s₀.add (.object fields) "").1.treeJson = (Definition.object fields).toJson) ∧
      (o.typeKey ≠ "cast" → Returns (s₀.add (.object fields) "").2) ∧
      ∀ e, (s₀.add (.object fields) "").2 = .error e →
        ∃ pre names d post, nodes o.typeKey [] fields = pre ++ .leaf names d :: post ∧
          (∀ n ∈ pre, n.error? o = none) ∧ (Node.leaf names d).error? o = some e ∧
          Declared o pre (s₀.add (.object fields) "").1 := by
  obtain ⟨s₀, compiled, done⟩ := compile_nothing (δ := δ) field virtual stamps
  have returns (other : o.typeKey ≠ "cast") : Returns (s₀.add (.object fields) "").2 :=
    returns_add (by rwa [done.options]) _ _
  refine ⟨s₀, compiled, ?_⟩
  cases hf : (nodes o.typeKey [] fields).find? fun n => (n.error? o).isSome with
  | none =>
    have accepted : ∀ n ∈ nodes o.typeKey [] fields, n.error? o = none := fun n hn => by
      simpa using List.find?_eq_none.1 hf n hn
    obtain ⟨s', run, declared, tree⟩ := add_accepted done plain accepted
    rw [run] at returns ⊢
    exact ⟨iff_of_true rfl accepted, fun _ => ⟨declared, tree⟩, returns, fun e he => by cases he⟩
  | some n =>
    obtain ⟨hn, pre, post, outline, before⟩ := List.find?_eq_some_iff_append.1 hf
    obtain ⟨e, he⟩ := Option.isSome_iff_exists.1 hn
    have accepted : ∀ m ∈ pre, m.error? o = none := fun m hm => by simpa using before m hm
    cases n with
    | group names => cases he
    | leaf names d =>
      obtain ⟨s', run, declared⟩ := add_refused done plain outline accepted he
      rw [run] at returns ⊢
      refine ⟨iff_of_false (by simp) fun all => ?_, fun h => (by cases h), returns,
        fun e' he' => ?_⟩
      · have clear := all (.leaf names d) (by rw [outline]; simp)
        rw [he] at clear
        cases clear
      · obtain rfl := Except.error.inj he'
        exact ⟨pre, names, d, post, outline, accepted, he, declared⟩

/-- Options under which nothing is added to a schema by itself. -/
def bareOptions : Options := { idField := false, idVirtual := false }

/-- A name in two parts, and a key that is reserved for whole paths only. -/
def nameFields : List (String × Definition MemoryDocument) :=
  [("name", .object [("first", .literal (.str "String")), ("save", .literal (.str "Number"))]),
    ("tags", .array [])]

theorem add_outline_name : ∃ s₀ : Schema MemoryDocument, compile bareOptions (.object []) = .ok s₀ ∧
    (s₀.add (.object nameFields) "").2 = .ok () ∧
      Declared bareOptions (nodes "type" [] nameFields) (s₀.add (.object nameFields) "").1 := by
  have plain : PlainKeys bareOptions.typeKey nameFields := by
    simp [PlainKeys, PlainAt, nameFields]
  obtain ⟨s₀, compiled, iff, declared, -⟩ := add_outline rfl rfl rfl plain
  have accepted : ∀ n ∈ nodes bareOptions.typeKey [] nameFields, n.error? bareOptions = none := by
    decide +kernel
  exact ⟨s₀, compiled, iff.2 accepted, (declared (iff.2 accepted)).1⟩

/-- Options under which a type is read where the elements of a named array are given. -/
def castOptions : Options := { bareOptions with typeKey := "cast" }

/-- Where the name of an array is that of its elements too, the call neither declares the field nor
refuses it. -/
theorem add_tags_endless : ∃ s₀ : Schema MemoryDocument,
    compile castOptions (.object []) = .ok s₀ ∧
      ¬ Returns (s₀.add (.object [("tags", .literal (.str "array"))]) "").2 := by
  obtain ⟨s₀, compiled, done⟩ :=
    compile_nothing (δ := MemoryDocument) (o := castOptions) rfl rfl rfl
  have plain : PlainKeys castOptions.typeKey
      [("tags", (.literal (.str "array") : Definition MemoryDocument))] := by
    simp [PlainKeys, PlainAt]
  have endless : (Definition.literal (.str "array") : Definition MemoryDocument).typeAt
      castOptions "tags" = .error (.endless "tags") := typeAt_of_namesArray rfl rfl rfl
  have refused : (Node.leaf ["tags"] (.literal (.str "array") : Definition MemoryDocument)).error?
      castOptions = some (.endless "tags") := by
    rw [Node.error?, show Path.join ["tags"] = "tags" from rfl, endless]
    · rfl
    · intro isNull
      cases isNull
    · intro holdsNull
      cases holdsNull
  have outline : nodes castOptions.typeKey []
      [("tags", (.literal (.str "array") : Definition MemoryDocument))] =
        [] ++ .leaf ["tags"] (.literal (.str "array")) :: [] := rfl
  obtain ⟨s', run, -⟩ := add_refused done plain outline (List.forall_mem_nil _) refused
  refine ⟨s₀, compiled, fun returns => returns "tags" ?_⟩
  rw [run]

end Schema

end DocSchema
