import DocSchema.Document.Memory
import DocSchema.Proofs.Path.Positions
import DocSchema.Proofs.Schema.Automatic
import DocSchema.Proofs.Schema.Caches
import DocSchema.Proofs.Schema.Rearranged
import DocSchema.Proofs.Schema.Redeclared

/-!
# Declaring fields in either order

Two fields whose paths lie apart are declared in either order. Each of the two calls gives the same
answer before and after the other one (`place_after`), since whether a field can be declared depends
only on what stands on the line of its path; and the two schemas are rearranged, since what a
declaration changes lies at its path or below it (`Local.comm`). So the schemas answer alike
(`declare_comm`).
-/

namespace DocSchema.Schema

open Definition

variable {δ : Type} {s s' bound : Schema δ} {p q : String} {d d' : Definition δ}
  {type type' : Except SchemaError (FieldType δ)}

/-! ### The parts of a declaration -/

def withTree (s : Schema δ) (tree : Table (Tree (Definition δ))) : Schema δ := { s with tree }

theorem withTree_tree (s : Schema δ) (tree : Table (Tree (Definition δ))) :
    (s.withTree tree).tree = tree := rfl

/-- Store a field if its type is known. -/
def adoptKnown (s : Schema δ) (path : String) : Except SchemaError (FieldType δ) → Schema δ
  | .ok t => s.adopt path t
  | .error _ => s

theorem declareAs_of_error {e : SchemaError} (placed : s.place p d = .error e) :
    s.declareAs p d type = (s, .error e) := by
  rw [declareAs, placed]

theorem declareAs_of_ok (placed : s.place p d = .ok bound) :
    s.declareAs p d type = (bound.adoptKnown p type, type) := by
  rw [declareAs, placed]
  cases type <;> rfl

theorem adoptKnown_withTree (tree : Table (Tree (Definition δ))) :
    (s.withTree tree).adoptKnown p type = (s.adoptKnown p type).withTree tree := by
  cases type with
  | error e => rfl
  | ok t =>
    show (s.withTree tree).adopt p t = (s.adopt p t).withTree tree
    unfold adopt
    cases t.kind <;> rfl

section

variable (s : Schema δ) (p : String) (type : Except SchemaError (FieldType δ))

@[simp] theorem adoptKnown_groups : (s.adoptKnown p type).groups = s.groups := by
  cases type with
  | error e => rfl
  | ok t => exact adopt_groups s p t

@[simp] theorem adoptKnown_virtuals : (s.adoptKnown p type).virtuals = s.virtuals := by
  cases type with
  | error e => rfl
  | ok t => exact adopt_virtuals s p t

@[simp] theorem adoptKnown_tree : (s.adoptKnown p type).tree = s.tree := by
  cases type with
  | error e => rfl
  | ok t => exact adopt_tree s p t

@[simp] theorem adoptKnown_ownIndexes : (s.adoptKnown p type).ownIndexes = s.ownIndexes := by
  cases type with
  | error e => rfl
  | ok t =>
    show (s.adopt p t).ownIndexes = s.ownIndexes
    unfold adopt
    cases t.kind <;> rfl

end

/-! ### Whether a field can be declared -/

theorem isTaken_congr (groups : s'.groups = s.groups) (virtuals : s'.virtuals = s.virtuals)
    (node : Tree.get? (Path.segments q) s'.tree = Tree.get? (Path.segments q) s.tree) :
    s'.isTaken q = s.isTaken q := by
  rw [isTaken, isTaken, groups, virtuals, node]

theorem conflict_congr {parent : String}
    (field : Table.get? s'.fields parent = Table.get? s.fields parent)
    (virtuals : s'.virtuals = s.virtuals) : s'.conflict q parent = s.conflict q parent := by
  rw [conflict, conflict, field, virtuals]

/-- Storing a field does not touch the other ones. -/
theorem get?_adoptKnown_of_ne (s : Schema δ) (type : Except SchemaError (FieldType δ))
    {path : String} (apart : path ≠ p) :
    Table.get? (s.adoptKnown p type).fields path = Table.get? s.fields path := by
  cases type with
  | error e => rfl
  | ok t =>
    show Table.get? (s.adopt p t).fields path = _
    rw [adopt_fields, Table.get?_insert_of_ne _ _ apart]

/-- A path that lies apart from a new field is taken after it exactly if it was taken before. -/
theorem isTaken_after (apart : Path.Apart p q) {root : Table (Tree (Definition δ))}
    (inserted : Tree.insertField (Path.segments p) d s.tree = .ok root)
    (type : Except SchemaError (FieldType δ)) :
    ((s.withTree root).adoptKnown p type).isTaken q = s.isTaken q := by
  refine isTaken_congr (adoptKnown_groups _ _ _) (adoptKnown_virtuals _ _ _) ?_
  rw [adoptKnown_tree]
  exact (Tree.insertField_placed (Path.segments_ne_nil p) inserted).apart _
    apart.symm.segments_apart apart.segments_apart

/-- What is in the way of a path lies above it, so it does not lie at one that lies apart. -/
theorem join_blocking_ne (apart : Path.Apart p q) {blocking : List String}
    {root : Table (Tree (Definition δ))}
    (failed : Tree.insertField (Path.segments q) d' root = .error blocking) :
    Path.join blocking ≠ p := by
  obtain ⟨some_name, onWay⟩ := Tree.prefix_of_blocking failed
  rintro rfl
  apply apart.segments_apart
  rw [Path.segments_join blocking some_name fun n hn =>
    Path.not_mem_of_mem_segments (onWay.subset hn)]
  exact onWay

/-- What a declaration does to the place of another field that lies apart: either this is refused
before and after, with the same error, or the two are placed in any order, in trees that come out
alike. -/
theorem place_after (apart : Path.Apart p q) (placed : s.place p d = .ok bound)
    (type : Except SchemaError (FieldType δ)) (d' : Definition δ) :
    (∃ e, s.place q d' = .error e ∧ (bound.adoptKnown p type).place q d' = .error e) ∨
    ∃ rootQ rootPQ rootQP, s.place q d' = .ok (s.withTree rootQ) ∧
      (bound.adoptKnown p type).place q d' = .ok ((bound.adoptKnown p type).withTree rootPQ) ∧
      Tree.insertField (Path.segments p) d rootQ = .ok rootQP ∧
      Tree.Alike SameForm (.branch rootPQ) (.branch rootQP) := by
  obtain ⟨-, -, rootP, inserted, same⟩ := place_ok placed
  obtain rfl : bound = s.withTree rootP := same
  have conflict : ∀ parent, parent ≠ p →
      ((s.withTree rootP).adoptKnown p type).conflict q parent = s.conflict q parent :=
    fun parent other => conflict_congr (get?_adoptKnown_of_ne _ type other)
      (adoptKnown_virtuals _ _ _)
  have taken := isTaken_after apart inserted type
  unfold place
  rw [taken, adoptKnown_tree, withTree_tree]
  by_cases reserved : Path.isReserved q = true
  · rw [if_pos reserved, if_pos reserved]
    exact .inl ⟨_, rfl, rfl⟩
  rw [if_neg reserved, if_neg reserved]
  by_cases occupied : s.isTaken q = true
  · rw [if_pos occupied, if_pos occupied, conflict q apart.ne.symm]
    exact .inl ⟨_, rfl, rfl⟩
  rw [if_neg occupied, if_neg occupied]
  cases Tree.swap_of_apart (R := SameForm) (fun _ => rfl) (b := d') apart.segments_apart
    apart.symm.segments_apart inserted with
  | @fails blocking before after =>
    rw [before, after]
    exact .inl ⟨_, rfl, congrArg _ (conflict _ (join_blocking_ne apart before))⟩
  | @swaps rootQ rootPQ rootQP before after back alike =>
    rw [before, after]
    exact .inr ⟨rootQ, rootPQ, rootQP, rfl, rfl, back, alike⟩

/-! ### What a declaration changes -/

/-- Whether a change of a schema is local: outside a zone of names, what is read stays as it was,
and what is read under a name afterwards depends only on what was read there before. -/
structure Local {β : Type} (read : Schema δ → String → β) (zone : String → Prop)
    (change : Schema δ → Schema δ) : Prop where
  outside : ∀ s name, ¬ zone name → read (change s) name = read s name
  congr : ∀ s s' name, read s name = read s' name → read (change s) name = read (change s') name

/-- Changes with disjoint zones can be made in any order. -/
theorem Local.comm {β : Type} {read : Schema δ → String → β} {zone zone' : String → Prop}
    {change change' : Schema δ → Schema δ} (h : Local read zone change)
    (h' : Local read zone' change') (disjoint : ∀ name, ¬ (zone name ∧ zone' name)) (s : Schema δ)
    (name : String) : read (change' (change s)) name = read (change (change' s)) name := by
  by_cases inside : zone name
  · have outside : ¬ zone' name := fun inside' => disjoint name ⟨inside, inside'⟩
    calc read (change' (change s)) name = read (change s) name := h'.outside _ _ outside
      _ = read (change (change' s)) name := h.congr _ _ _ (h'.outside _ _ outside).symm
  · calc read (change' (change s)) name = read (change' s) name :=
          h'.congr _ _ _ (h.outside _ _ inside)
      _ = read (change (change' s)) name := (h.outside _ _ inside).symm

theorem local_fields (p : String) (type : Except SchemaError (FieldType δ)) :
    Local (fun s path => Table.get? s.fields path) (· = p) fun s => s.adoptKnown p type where
  outside s path other := get?_adoptKnown_of_ne s type other
  congr s s' path same := by
    by_cases here : path = p
    · subst here
      cases type with
      | error e => exact same
      | ok t =>
        show Table.get? (s.adopt path t).fields path = Table.get? (s'.adopt path t).fields path
        rw [adopt_fields, adopt_fields, Table.get?_insert_self, Table.get?_insert_self]
    · rw [get?_adoptKnown_of_ne s type here, get?_adoptKnown_of_ne s' type here]
      exact same

/-- What a field brings in lies below its path. -/
theorem below_of_mem_fieldsBelow {t : FieldType δ} {path : String}
    (there : path ∈ Table.keys (t.fieldsBelow p)) : Path.isBelow p path = true := by
  obtain ⟨_, there⟩ := Table.mem_keys.1 there
  unfold FieldType.fieldsBelow at there
  split at there
  · obtain ⟨e, -, same⟩ := List.mem_map.1 there
    cases same
    exact Path.isBelow_below p e.1
  · cases there

theorem below_of_mem_groupsBelow {t : FieldType δ} {path : String}
    (there : path ∈ t.groupsBelow p) : Path.isBelow p path = true := by
  unfold FieldType.groupsBelow at there
  split at there
  · obtain ⟨g, -, rfl⟩ := List.mem_map.1 there
    exact Path.isBelow_below p g
  · cases there

/-- A field that embeds a schema replaces what was known below its path, and any other field changes
nothing of this. -/
theorem embedded_adoptKnown (p : String) (type : Except SchemaError (FieldType δ)) :
    (∃ t : FieldType δ, ∀ s : Schema δ,
      (s.adoptKnown p type).embeddedFields =
        Table.insertAll (s.embeddedFields.filter fun e => !Path.isBelow p e.1) (t.fieldsBelow p) ∧
      (s.adoptKnown p type).embeddedGroups =
        (t.groupsBelow p).foldl addName (s.embeddedGroups.filter fun g => !Path.isBelow p g)) ∨
    ∀ s : Schema δ, (s.adoptKnown p type).embeddedFields = s.embeddedFields ∧
      (s.adoptKnown p type).embeddedGroups = s.embeddedGroups := by
  cases type with
  | error e => exact .inr fun s => ⟨rfl, rfl⟩
  | ok t =>
    cases kind : t.kind with
    | embedded child =>
      refine .inl ⟨t, fun s => ?_⟩
      rw [adoptKnown, adopt, FieldType.fieldsBelow, FieldType.groupsBelow, kind]
      exact ⟨rfl, rfl⟩
    | scalar _ | mixed | documents _ | array _ =>
      refine .inr fun s => ?_
      rw [adoptKnown, adopt, kind]
      exact ⟨rfl, rfl⟩

theorem local_embeddedFields (p : String) (type : Except SchemaError (FieldType δ)) :
    Local (fun s path => Table.get? s.embeddedFields path) (fun path => Path.isBelow p path = true)
      fun s => s.adoptKnown p type := by
  obtain ⟨t, replaced⟩ | same := embedded_adoptKnown p type
  · constructor
    · intro s path apart
      have others : path ∉ Table.keys (t.fieldsBelow p) :=
        fun there => apart (below_of_mem_fieldsBelow there)
      rw [(replaced s).1, Table.get?_insertAll_of_not_mem others,
        Table.get?_filter _ fun k => !Path.isBelow p k]
      simp [apart]
    · intro s s' path before
      rw [(replaced s).1, (replaced s').1]
      apply Table.get?_insertAll_congr
      rw [Table.get?_filter _ fun k => !Path.isBelow p k,
        Table.get?_filter _ fun k => !Path.isBelow p k, before]
  · exact ⟨fun s _ _ => by rw [(same s).1],
      fun s s' _ before => by rw [(same s).1, (same s').1, before]⟩

theorem local_embeddedGroups (p : String) (type : Except SchemaError (FieldType δ)) :
    Local (fun s path => path ∈ s.embeddedGroups) (fun path => Path.isBelow p path = true)
      fun s => s.adoptKnown p type := by
  obtain ⟨t, replaced⟩ | same := embedded_adoptKnown p type
  · have stored : ∀ (s : Schema δ) path, (path ∈ (s.adoptKnown p type).embeddedGroups) =
        ((path ∈ s.embeddedGroups ∧ Path.isBelow p path = false) ∨ path ∈ t.groupsBelow p) := by
      intro s path
      rw [(replaced s).2, mem_foldl_addName, List.mem_filter, Bool.not_eq_true']
    constructor
    · intro s path apart
      have others : path ∉ t.groupsBelow p := fun there => apart (below_of_mem_groupsBelow there)
      have unseen : Path.isBelow p path = false := by simpa using apart
      rw [stored]
      simp [unseen, others]
    · intro s s' path before
      rw [stored, stored, before]
  · exact ⟨fun s _ _ => by rw [(same s).2],
      fun s s' _ before => by rw [(same s).2, (same s').2, before]⟩

/-- What is remembered is forgotten where a field is stored, whichever it is. -/
theorem located_adoptKnown_comm : ((s.adoptKnown p type).adoptKnown q type').located =
    ((s.adoptKnown q type').adoptKnown p type).located := by
  have forgets : ∀ (s : Schema δ) (path : String) t, (s.adoptKnown path (.ok t)).located = [] :=
    fun s path t => adopt_located s path t
  cases type with
  | error e => rfl
  | ok t =>
    cases type' with
    | error e => rfl
    | ok t' => rw [forgets, forgets]

theorem rearranged_adoptKnown (apart : Path.Apart p q)
    {root root' : Table (Tree (Definition δ))}
    (alike : Tree.Alike SameForm (.branch root) (.branch root')) :
    Rearranged (((s.adoptKnown p type).adoptKnown q type').withTree root)
      (((s.adoptKnown q type').adoptKnown p type).withTree root') where
  fields := (local_fields p type).comm (local_fields q type')
    (fun _ both => apart.ne (both.1.symm.trans both.2)) s
  groups := by simp [withTree]
  embeddedFields := (local_embeddedFields p type).comm (local_embeddedFields q type')
    apart.not_below_both s
  embeddedGroups path := Eq.to_iff ((local_embeddedGroups p type).comm
    (local_embeddedGroups q type') apart.not_below_both s path)
  located := located_adoptKnown_comm
  virtuals := by simp [withTree]
  ownIndexes := by simp [withTree]
  tree := alike

/-! ### Both calls -/

/-- Two fields are declared in either order: each call gives the same answer, and the schemas are
rearranged. -/
theorem declareAs_comm (apart : Path.Apart p q) (d d' : Definition δ)
    (type type' : Except SchemaError (FieldType δ)) :
    ((s.declareAs p d type).1.declareAs q d' type').2 = (s.declareAs q d' type').2 ∧
    ((s.declareAs q d' type').1.declareAs p d type).2 = (s.declareAs p d type).2 ∧
    Rearranged ((s.declareAs p d type).1.declareAs q d' type').1
      ((s.declareAs q d' type').1.declareAs p d type).1 := by
  cases placed : s.place p d with
  | error e =>
    rw [declareAs_of_error placed]
    cases placed' : s.place q d' with
    | error e' =>
      rw [declareAs_of_error placed', declareAs_of_error placed]
      exact ⟨rfl, rfl, .refl s⟩
    | ok bound' =>
      obtain ⟨_, failed, after⟩ | ⟨_, _, _, done, -⟩ := place_after apart.symm placed' type' d
      · cases placed.symm.trans failed
        rw [declareAs_of_ok placed', declareAs_of_error after]
        exact ⟨rfl, rfl, .refl _⟩
      · cases placed.symm.trans done
  | ok bound =>
    rw [declareAs_of_ok placed]
    cases placed' : s.place q d' with
    | error e =>
      obtain ⟨_, failed, after⟩ | ⟨_, _, _, done, -⟩ := place_after apart placed type d'
      · cases placed'.symm.trans failed
        rw [declareAs_of_error placed', declareAs_of_ok placed, declareAs_of_error after]
        exact ⟨rfl, rfl, .refl _⟩
      · cases placed'.symm.trans done
    | ok bound' =>
      obtain ⟨_, failed, -⟩ | ⟨rootQ, rootPQ, rootQP, done, after, back, alike⟩ :=
        place_after apart placed type d'
      · cases placed'.symm.trans failed
      obtain ⟨_, failed, -⟩ | ⟨rootP, rootQP', _, done', after', -, -⟩ :=
        place_after apart.symm placed' type' d
      · cases placed.symm.trans failed
      cases placed.symm.trans done'
      cases placed'.symm.trans done
      rw [declareAs_of_ok placed', declareAs_of_ok after, declareAs_of_ok after']
      refine ⟨rfl, rfl, ?_⟩
      -- the second tree is the one that the first field was put into last
      obtain ⟨-, -, tree, inserted, same⟩ := place_ok after'
      obtain rfl : rootQP' = tree := congrArg Schema.tree same
      rw [adoptKnown_tree] at inserted
      cases inserted.symm.trans back
      simp only [adoptKnown_withTree]
      exact rearranged_adoptKnown apart alike

variable [Document δ]

/-- Whatever was called on a schema before, two fields whose paths lie apart are declared in either
order: each call gives the same answer, and the schemas that come out answer alike. -/
theorem declare_comm (reachable : Reachable s) {p q : String} (apart : Path.Apart p q)
    {d d' : Definition δ} (inside : ∀ c ∈ d.schemas, Reachable c)
    (inside' : ∀ c ∈ d'.schemas, Reachable c) :
    ((s.declare p d).1.declare q d').2 = (s.declare q d').2 ∧
    ((s.declare q d').1.declare p d).2 = (s.declare p d).2 ∧
    AnswersAlike ((s.declare p d).1.declare q d').1 ((s.declare q d').1.declare p d).1 := by
  have options := options_declareAs s p d (d.typeAt s.options p)
  have options' := options_declareAs s q d' (d'.typeAt s.options q)
  obtain ⟨same, same', rearranged⟩ :=
    declareAs_comm (s := s) apart d d' (d.typeAt s.options p) (d'.typeAt s.options q)
  have reached : Reachable ((s.declare p d).1.declare q d').1 :=
    .call (.declare q d') (.call (.declare p d) reachable inside trivial) inside' trivial
  have reached' : Reachable ((s.declare q d').1.declare p d).1 :=
    .call (.declare p d) (.call (.declare q d') reachable inside' trivial) inside trivial
  unfold declare at reached reached' ⊢
  rw [options] at reached ⊢
  rw [options'] at reached' ⊢
  exact ⟨same, same', rearranged.answersAlike reached reached'⟩

def indexedText : Definition MemoryDocument :=
  .object [("type", .literal (.str "String")), ("index", .literal (.bool true))]

/-- A city and a street at home are declared in either order. The fields stand in another order
then, since the home is made by whichever comes first. -/
theorem declare_comm_home : ∃ s : Schema MemoryDocument, compile {} namedDefinition = .ok s ∧
    Table.keys ((s.declare "home.city" indexedText).1.declare "home.street" indexedText).1.fields =
      ["name", "_id", "home.city", "home.street"] ∧
    Table.keys ((s.declare "home.street" indexedText).1.declare "home.city" indexedText).1.fields =
      ["name", "_id", "home.street", "home.city"] ∧
    AnswersAlike ((s.declare "home.city" indexedText).1.declare "home.street" indexedText).1
      ((s.declare "home.street" indexedText).1.declare "home.city" indexedText).1 := by
  have h : ((compile {} namedDefinition).toOption.any fun s : Schema MemoryDocument =>
      decide (Table.keys
        ((s.declare "home.city" indexedText).1.declare "home.street" indexedText).1.fields =
          ["name", "_id", "home.city", "home.street"]) &&
      decide (Table.keys
        ((s.declare "home.street" indexedText).1.declare "home.city" indexedText).1.fields =
          ["name", "_id", "home.street", "home.city"])) = true := by
    decide +kernel
  obtain ⟨s, compiled, h⟩ := exists_ok_of_any h
  simp only [Bool.and_eq_true, decide_eq_true_eq] at h
  have reachable : Reachable s := .compile (by simp [namedDefinition, Definition.schemas,
    Definition.fieldSchemas]) compiled
  have inside : ∀ c ∈ indexedText.schemas, Reachable c := by
    simp [indexedText, Definition.schemas, Definition.fieldSchemas]
  obtain ⟨-, -, alike⟩ := declare_comm reachable
    (p := "home.city") (q := "home.street") ⟨by decide, by decide, by decide⟩ inside inside
  exact ⟨s, compiled, h.1, h.2, alike⟩

end DocSchema.Schema
