import DocSchema.Document.Memory
import DocSchema.Proofs.Outcomes
import DocSchema.Proofs.Schema.History
import DocSchema.Proofs.Schema.Mirror
import DocSchema.Proofs.Schema.TreeForms

/-!
# Definitions in the tree of a schema that calls have failed on

A field is bound in the tree before its type is resolved. So a field that is declared again with a
definition that has no type stays as it was, while the tree holds the definition that was refused.
Nothing else parts the fields from the tree: as long as options are not set, the tree has at the
path of every field the definition that the field was compiled from, or one that was refused there
(`field_bound`). The same goes for what a fingerprint is taken from, since this is the tree.
-/

namespace DocSchema

variable {δ : Type}

/-- The value that some keys lead to in a value, one after the other. -/
def Json.at? : List String → Json → Option Json
  | [], v => some v
  | key :: keys, .obj fields => (Table.get? fields key).bind (at? keys)
  | _ :: _, _ => none

namespace Tree

open Definition

/-- What stands in a tree is shown at the same place. -/
theorem at?_treeJson : ∀ {names : List String} {root : Table (Tree (Definition δ))}
    {x : Tree (Definition δ)}, get? names root = some x →
      (Json.obj (treeJson root)).at? names = some (nodeJson x)
  | [], _, _, h => by cases h
  | [name], root, x, h => by
    show (Table.get? (treeJson root) name).bind (Json.at? []) = _
    rw [get?_treeJson, ← get?_singleton name root, h]
    rfl
  | name :: next :: rest, root, x, h => by
    rw [get?_cons_cons] at h
    split at h
    · next inner branch =>
      show (Table.get? (treeJson root) name).bind (Json.at? (next :: rest)) = _
      rw [get?_treeJson, branch]
      exact at?_treeJson h
    · cases h

end Tree

namespace Schema

variable {s s' : Schema δ} {path : String} {d : Definition δ}

/-! ### The tree at the path of a field -/

/-- A path that is bound leads to its definition. -/
theorem place_self (placed : s.place path d = .ok s') :
    Tree.get? (Path.segments path) s'.tree = some (.field d) := by
  obtain ⟨-, -, tree, inserted, rfl⟩ := place_ok placed
  exact (Tree.insertField_placed (Path.segments_ne_nil path) inserted).self

/-- The definitions of other fields stay where a path is bound. -/
theorem place_other {p : String} {x : Definition δ} (placed : s.place path d = .ok s')
    (other : p ≠ path) (node : Tree.get? (Path.segments p) s.tree = some (.field x)) :
    Tree.get? (Path.segments p) s'.tree = some (.field x) := by
  obtain ⟨-, free, tree, inserted, rfl⟩ := place_ok placed
  obtain ⟨-, -, leaf⟩ := not_taken free
  have put := Tree.insertField_placed (Path.segments_ne_nil path) inserted
  refine put.leaf_survives ?_ rfl ?_ node
  · intro inner branch
    obtain ⟨y, hy⟩ := leaf _ branch
    cases hy
  · intro same
    exact other (Path.segments_injective same)

/-- The definitions of fields stay where a virtual is bound. -/
theorem insertVirtual_keeps {names segments : List String} {x : Definition δ}
    {root root' : Table (Tree (Definition δ))} (hs : segments ≠ [])
    (inserted : Tree.insertVirtual segments root = .ok root')
    (node : Tree.get? names root = some (.field x)) :
    Tree.get? names root' = some (.field x) := by
  have put := Tree.insertVirtual_placed hs inserted
  have free := Tree.insertVirtual_was_free inserted
  -- a virtual takes no place but that of a virtual
  refine put.leaf_survives ?_ rfl ?_ node
  · intro inner branch
    rw [branch] at free
    simp at free
  · rintro rfl
    rw [node] at free
    simp at free

variable [Document δ] {o : Options} {past : List (Turn δ)}

/-- The entries of a definition come with the types of their definitions. -/
theorem faithful_entries (o : Options) (front : String) (fields : List (String × Definition δ)) :
    ∀ e ∈ (Definition.entries o.typeKey front fields).map
      (Entry.withType fun p x => x.typeAt o p), Faithful o (fun _ => True) e := by
  intro e he
  obtain ⟨e', -, rfl⟩ := List.mem_map.1 he
  cases e' with
  | field path d u => exact ⟨rfl, trivial⟩
  | _ => trivial

/-! ### Fields that were refused when declared again -/

/-- Whether a field was declared again with a definition that has no type. -/
def RefusedAgain (o : Options) (past : List (Turn δ)) (p : String) (t : FieldType δ)
    (d : Definition δ) : Prop :=
  ∃ b e, (b, .field p d (.error e)) ∈ past ∧ Table.get? b.fields p = some t ∧
    (∃ bound, b.place p d = .ok bound) ∧ d.typeAt o p = .error e

/-- Whether the tree has at the path of every field the definition that the field was compiled from,
or one that was refused. -/
def Told (o : Options) (past : List (Turn δ)) (s : Schema δ) : Prop :=
  ∀ p t, Table.get? s.fields p = some t →
    ∃ d, Tree.get? (Path.segments p) s.tree = some (.field d) ∧
      (d.typeAt o p = .ok t ∨ RefusedAgain o past p t d)

namespace Told

theorem mono (h : Told o past s) (later : List (Turn δ)) : Told o (past ++ later) s := by
  intro p t ht
  obtain ⟨d, node, typed | ⟨b, e, turn, refused⟩⟩ := h p t ht
  · exact ⟨d, node, .inl typed⟩
  · exact ⟨d, node, .inr ⟨b, e, List.mem_append_left _ turn, refused⟩⟩

theorem congr (h : Told o past s) (same : SameNames s s') : Told o past s' := by
  intro p t
  rw [same.fields, same.tree]
  exact h p t

/-- What binds no field and loses no definition of one leaves all as it was. -/
theorem keep (h : Told o past s) (fields : s'.fields = s.fields)
    (kept : ∀ {names d}, Tree.get? names s.tree = some (.field d) →
      Tree.get? names s'.tree = some (.field d)) : Told o past s' := by
  intro p t ht
  rw [fields] at ht
  obtain ⟨d, node, told⟩ := h p t ht
  exact ⟨d, kept node, told⟩

/-- A field that is declared is told by its new definition, and if this one is refused, an earlier
field at the path is refused again. -/
theorem declareAs (h : Told o past s) (path : String) (d : Definition δ) :
    Told o (past ++ [(s, .field path d (d.typeAt o path))])
      (s.declareAs path d (d.typeAt o path)).1 := by
  unfold Schema.declareAs
  cases placed : s.place path d with
  | error e => exact h.mono _
  | ok bound =>
    have fields : bound.fields = s.fields := by
      obtain ⟨-, -, tree, -, rfl⟩ := place_ok placed
      rfl
    cases typed : d.typeAt o path with
    | error e =>
      intro p t ht
      replace ht : Table.get? s.fields p = some t := fields ▸ ht
      show ∃ x, Tree.get? (Path.segments p) bound.tree = some (.field x) ∧ _
      by_cases here : p = path
      · subst here
        refine ⟨d, place_self placed, .inr ⟨s, e, ?_, ht, ⟨bound, placed⟩, typed⟩⟩
        exact List.mem_append_right _ (List.mem_singleton.2 rfl)
      · obtain ⟨x, node, told⟩ := h.mono _ p t ht
        exact ⟨x, place_other placed here node, told⟩
    | ok t =>
      intro p t' ht'
      dsimp only at ht' ⊢
      rw [adopt_fields, fields] at ht'
      rw [adopt_tree]
      by_cases here : p = path
      · subst here
        obtain rfl : t = t' := Option.some.inj ((Table.get?_insert_self _ _ _).symm.trans ht')
        exact ⟨d, place_self placed, .inl typed⟩
      · rw [Table.get?_insert_of_ne _ _ here] at ht'
        obtain ⟨x, node, told⟩ := h.mono _ p t' ht'
        exact ⟨x, place_other placed here node, told⟩

theorem register (h : Told o past s) {e : TypedEntry δ} (faithful : Faithful o (fun _ => True) e) :
    Told o (past ++ [(s, e)]) (s.register e).1 := by
  cases e with
  | missing path => exact h.mono _
  | missingItem path => exact h.mono _
  | group path =>
    rw [Schema.register]
    split <;> exact h.mono _
  | field path d type =>
    obtain ⟨rfl, -⟩ := faithful
    rw [register_field_fst]
    exact h.declareAs path d

theorem registerAll {es : List (TypedEntry δ)} (h : Told o past s)
    (faithful : ∀ e ∈ es, Faithful o (fun _ => True) e) :
    Told o (past ++ s.turns es) (s.registerAll es).1 := by
  induction es generalizing past s with
  | nil =>
    rw [turns, List.append_nil]
    exact h
  | cons e es ih =>
    have first := h.register (faithful e List.mem_cons_self)
    rcases run : s.register e with ⟨s', err | u⟩
    · rw [run] at first
      rw [registerAll_of_error run, turns_of_error run]
      exact first
    · rw [run] at first
      rw [registerAll_of_ok run, turns_of_ok run, List.append_cons]
      exact ih first fun e' he' => faithful e' (List.mem_cons_of_mem _ he')

/-! ### Calls -/

theorem add (h : Told o past s) (options : s.options = o) (d : Definition δ) (front : String) :
    Told o (past ++ Call.turns s (.add d front)) (s.add d front).1 := by
  subst options
  cases d with
  | object fields => exact h.registerAll (faithful_entries s.options front fields)
  | _ => exact h.mono _

theorem extendVirtual (h : Told o past s) (path : String) (options : Table Json)
    (getters : List Getter) (setters : List Setter) :
    Told o past (s.extendVirtual path options getters setters).1 := by
  unfold Schema.extendVirtual virtual
  cases Table.get? s.virtuals path with
  | some v => exact h.keep rfl id
  | none =>
    cases inserted : Tree.insertVirtual (Path.segments path) s.tree with
    | error blocking => exact h
    | ok tree => exact h.keep rfl (insertVirtual_keeps (Path.segments_ne_nil path) inserted)

/-- A call that declares fields tells them, and no other call parts a field from the tree. -/
theorem run {c : Call δ} (plain : c.IsPlain) (options : s.options = o) (h : Told o past s) :
    Told o (past ++ c.turns s) (c.run s).1 := by
  cases plain.names s with
  | add d front => exact h.add options d front
  | declare path d =>
    subst options
    exact h.declareAs path d
  | virtual path options getters setters =>
    exact (h.extendVirtual path options getters setters).mono _
  | other same => exact (h.congr same).mono _

end Told

/-! ### Options -/

section

omit [Document δ]

theorem options_remember (s : Schema δ) (path : String) :
    (s.remember path).1.options = s.options := by
  unfold remember
  split <;> rfl

theorem options_lookup (s : Schema δ) (path : String) : (s.lookup path).1.options = s.options := by
  rw [lookup_fst]
  split
  · exact options_remember s path
  · rfl

theorem options_classify (s : Schema δ) (path : String) :
    (s.classify path).1.options = s.options := by
  unfold classify
  have searched := options_remember s path
  grind

theorem options_addHook (s : Schema δ) (entry : HookEntry δ) :
    (s.addHook entry).options = s.options := by
  unfold addHook
  split <;> rfl

theorem options_extendVirtual (s : Schema δ) (path : String) (options : Table Json)
    (getters : List Getter) (setters : List Setter) :
    (s.extendVirtual path options getters setters).1.options = s.options := by
  unfold Schema.extendVirtual virtual
  grind

end

/-- Options are kept by all plain calls but those that set one. -/
theorem options_run {c : Call δ} (plain : c.IsPlain) (kept : ∀ key v, c ≠ .set key v) :
    (c.run s).1.options = s.options := by
  cases c with
  | add d front =>
    show (s.add d front).1.options = s.options
    unfold add
    split
    · exact options_fst_registerAll s _
    · rfl
  | declare path d => exact options_declareAs s path d _
  | lookup path => exact options_lookup s path
  | classify path => exact options_classify s path
  | requiredPaths anew =>
    show (s.requiredPaths anew).1.options = s.options
    unfold requiredPaths
    grind
  | index fields options =>
    show (s.addIndex fields options).1.options = s.options
    unfold addIndex
    split <;> rfl
  | indexedPaths =>
    show s.indexedPaths.1.options = s.options
    unfold indexedPaths
    split <;> rfl
  | virtual path options getters setters =>
    exact options_extendVirtual s path options getters setters
  | pre event hook => exact options_addHook s _
  | post event hook => exact options_addHook s _
  | postWithNext event hook => exact options_addHook s _
  | set key v => exact absurd rfl (kept key v)
  | plugin calls => cases plain
  | attempt c => cases plain
  | _ => rfl

/-! ### After any calls -/

def SetNothing (past : List (Schema δ × Call δ)) : Prop := ∀ e ∈ past, ∀ key v, e.2 ≠ .set key v

/-- Whether the tree tells the fields after some calls, unless one of them sets an option. -/
def ToldAfter (o : Options) (past : List (Schema δ × Call δ)) (s : Schema δ) : Prop :=
  SetNothing past → s.options = o ∧ Told o (Call.allTurns past) s

/-- The tree of what is compiled has the definitions of its fields. -/
theorem ToldAfter.compile {d : Definition δ} (compiled : Schema.compile o d = .ok s) :
    ToldAfter o [] s := by
  have mirrors : Mirrors o (fun _ => True) s := by
    unfold Schema.compile at compiled
    split at compiled
    · exact .assemble (faithful_entries o "" _) trivial trivial compiled
    · exact .assemble (by simp) trivial trivial compiled
    · cases compiled
  intro _
  refine ⟨mirrors.options, fun p t ht => ?_⟩
  obtain ⟨d, node, -, typed⟩ := mirrors.field ht
  exact ⟨d, node, .inl typed⟩

theorem ToldAfter.run {past : List (Schema δ × Call δ)} {c : Call δ} (plain : c.IsPlain)
    (h : ToldAfter o past s) : ToldAfter o (past ++ [(s, c)]) (c.run s).1 := by
  intro kept
  obtain ⟨options, told⟩ := h fun e he => kept e (List.mem_append_left _ he)
  have last := kept (s, c) (List.mem_append_right _ (List.mem_singleton.2 rfl))
  rw [Call.allTurns_snoc]
  exact ⟨(options_run plain last).trans options, told.run plain options⟩

/-- Whatever calls are made on a compiled schema, in whatever order and whether they fail or not, as
long as they set no options: the tree has a definition at the path of every field and shows it there
when a fingerprint is taken, and this is the definition that the field was compiled from, or one
that was refused when the field was declared again. -/
theorem field_bound {d₀ : Definition δ} {s₀ : Schema δ} (compiled : Schema.compile o d₀ = .ok s₀)
    (calls : List (Call δ)) (kept : SetNothing (Call.historyAll s₀ calls)) :
    ∀ p t, Table.get? (Call.runAll s₀ calls).fields p = some t → ∃ d : Definition δ,
      Tree.get? (Path.segments p) (Call.runAll s₀ calls).tree = some (.field d) ∧
        (Call.runAll s₀ calls).treeJson.at? (Path.segments p) = some d.toJson ∧
          (d.typeAt (Call.runAll s₀ calls).options p = .ok t ∨
            RefusedAgain (Call.runAll s₀ calls).options
              (Call.allTurns (Call.historyAll s₀ calls)) p t d) := by
  intro p t ht
  have reached : ToldAfter o (Call.historyAll s₀ calls) (Call.runAll s₀ calls) :=
    Call.runAll_induct (fun _ _ _ plain h => h.run plain) calls [] s₀ (.compile compiled)
  obtain ⟨options, told⟩ := reached kept
  obtain ⟨d, node, said⟩ := told p t ht
  rw [options]
  exact ⟨d, node, Tree.at?_treeJson node, said⟩

/-- A field that is declared with a type and then with the name of a type that does not exist. -/
def redeclared : List (Call MemoryDocument) :=
  [.declare "area" (.literal (.str "String")), .declare "area" (.literal (.str "Geometry"))]

theorem field_bound_area : ∃ s₀, Schema.compile {} sampleDefinition = .ok s₀ ∧
    ∀ p t, Table.get? (Call.runAll s₀ redeclared).fields p = some t →
      ∃ d : Definition MemoryDocument,
        Tree.get? (Path.segments p) (Call.runAll s₀ redeclared).tree = some (.field d) ∧
          (Call.runAll s₀ redeclared).treeJson.at? (Path.segments p) = some d.toJson ∧
            (d.typeAt (Call.runAll s₀ redeclared).options p = .ok t ∨
              RefusedAgain (Call.runAll s₀ redeclared).options
                (Call.allTurns (Call.historyAll s₀ redeclared)) p t d) := by
  have h : ((Schema.compile {} sampleDefinition).toOption.any fun _ => true) = true := by
    decide +kernel
  obtain ⟨s₀, compiled, -⟩ := exists_ok_of_any h
  refine ⟨s₀, compiled, field_bound compiled redeclared ?_⟩
  simp [SetNothing, redeclared, Call.historyAll, Call.history]

/-- What the tree has at a path is a definition without a type. -/
def boundInVain (s : Schema MemoryDocument) (path : String) : Bool :=
  match Tree.get? (Path.segments path) s.tree with
  | some (.field d) => (d.typeAt s.options path).toOption.isNone
  | _ => false

/-- The field is what it was first declared to be, and the tree has a definition without a type. -/
theorem bound_in_vain : ∃ s₀ t, Schema.compile {} sampleDefinition = .ok s₀ ∧
    Table.get? (Call.runAll s₀ redeclared).fields "area" = some t ∧
      ∀ d : Definition MemoryDocument,
        Tree.get? (Path.segments "area") (Call.runAll s₀ redeclared).tree = some (.field d) →
          d.typeAt (Call.runAll s₀ redeclared).options "area" ≠ .ok t := by
  have h : ((Schema.compile {} sampleDefinition).toOption.any fun s₀ =>
      Table.contains (Call.runAll s₀ redeclared).fields "area" &&
        boundInVain (Call.runAll s₀ redeclared) "area") = true := by
    decide +kernel
  obtain ⟨s₀, compiled, h⟩ := exists_ok_of_any h
  obtain ⟨there, inVain⟩ := (Bool.and_eq_true _ _).mp h
  obtain ⟨t, ht⟩ := (Table.contains_iff_get? _ _).1 there
  refine ⟨s₀, t, compiled, ht, fun d node typed => ?_⟩
  rw [boundInVain, node] at inVain
  dsimp only at inVain
  rw [typed] at inVain
  cases inVain

end Schema

end DocSchema
