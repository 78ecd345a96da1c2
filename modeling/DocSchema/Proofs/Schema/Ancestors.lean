import DocSchema.Proofs.Schema.Mirror
import DocSchema.Proofs.Schema.OpenGroups
import DocSchema.Proofs.Schema.Outside

/-!
# The ancestors of a field

A field lies in the tree below all of its ancestors, which are branches there, however the field was
declared. A group is more than a branch: only an object that is written without a type is one. So an
ancestor of a field is classified as a group exactly if it was written as one, in the definition or
in an object that was added (`above_runAll`). Everything else above a field is undefined.

What groups there are is read off the entries whose turn came (`mem_groups_runAll`), in runs whose
calls may fail half way.
-/

namespace DocSchema.Schema

variable {δ : Type} {s s' : Schema δ} {g a : String}

/-! ### Above a field -/

/-- What lies above a field is a branch of the tree. -/
theorem Coherent.branch_above {p : String} (h : Coherent s)
    (field : Table.contains s.fields p = true) (above : Path.isBelow a p = true) :
    ∃ children, Tree.get? (Path.segments a) s.tree = some (.branch children) := by
  obtain ⟨rest, more, continues⟩ := Path.isBelow_iff_segments.1 above
  obtain ⟨d, node⟩ := h.field_node field
  rw [continues] at node
  exact Tree.branch_of_get?_append (Path.segments_ne_nil a) more node

/-- What lies above a field is classified as a group or as undefined. -/
theorem InOrder.classify_above {p : String} (h : InOrder s)
    (field : Table.contains s.fields p = true) (above : Path.isBelow a p = true) :
    (s.classify a).2 = if s.groups.contains a then .nested else .adhocOrUndefined := by
  -- a field or a virtual would have the field below it
  have notDeclared : ¬ s.Declares a := by
    intro declared
    rw [h.coherent.not_below declared (.inl field)] at above
    cases above
  have noField : Table.get? s.fields a = none := by
    rw [Table.get?_eq_none_iff, Bool.eq_false_iff]
    exact fun there => notDeclared (.inl there)
  have noVirtual : Table.contains s.virtuals a = false := by
    rw [Bool.eq_false_iff]
    exact fun there => notDeclared (.inr there)
  rw [h.classify_snd ((h.outside (.inl field)).above above), noVirtual, ownMeaning, noField]
  cases s.groups.contains a <;> rfl

/-! ### Groups that a run opens -/

/-- A group is there once an entry is declared if it was there before or the entry opened it. -/
theorem mem_groups_register_iff {e : TypedEntry δ} :
    g ∈ (s.register e).1.groups ↔ g ∈ s.groups ∨ e = .group g ∧ (s.register e).2 = .ok () := by
  cases e with
  | missing p => simp [register]
  | missingItem p => simp [register]
  | field p d type =>
    rw [register_field_fst, groups_declareAs]
    simp
  | group p =>
    rw [register]
    split
    · simp
    · rw [mem_addName, or_comm]
      simp [eq_comm]

/-- Whether a group is among the entries whose turn comes and is not refused. -/
def OpensIn (ts : List (Turn δ)) (g : String) : Prop := ∃ t ∈ ts, t.2 = .group g ∧ ¬ t.Fails

theorem opensIn_nil : ¬ OpensIn ([] : List (Turn δ)) g := by
  rintro ⟨t, ht, -⟩
  cases ht

theorem opensIn_append {ts ts' : List (Turn δ)} :
    OpensIn (ts ++ ts') g ↔ OpensIn ts g ∨ OpensIn ts' g := by
  simp only [OpensIn, List.mem_append, or_and_right, exists_or]

theorem opensIn_singleton {e : TypedEntry δ} :
    OpensIn [(s, e)] g ↔ e = .group g ∧ (s.register e).2 = .ok () := by
  simp [OpensIn, Turn.Fails]

/-- The groups that are there once entries are declared, whether or not one of them is refused. -/
theorem mem_groups_registerAll_iff {es : List (TypedEntry δ)} :
    g ∈ (s.registerAll es).1.groups ↔ g ∈ s.groups ∨ OpensIn (s.turns es) g := by
  induction es generalizing s with
  | nil => exact ⟨.inl, fun h => h.resolve_right opensIn_nil⟩
  | cons e es ih =>
    have first : g ∈ (s.register e).1.groups ↔ g ∈ s.groups ∨ OpensIn [(s, e)] g := by
      rw [opensIn_singleton]
      exact mem_groups_register_iff
    rcases run : s.register e with ⟨s', err | u⟩
    · rw [run] at first
      rw [registerAll_of_error run, turns_of_error run]
      exact first
    · rw [run] at first
      -- the first turn and those that come after it
      rw [registerAll_of_ok run, turns_of_ok run, ih, first, or_assoc, ← opensIn_append]
      rfl

/-- Where no entry is refused, the turn of every one comes. -/
theorem turns_of_accepted {es : List (TypedEntry δ)} (ok : (s.registerAll es).2 = .ok ()) :
    (s.turns es).map Prod.snd = es := by
  induction es generalizing s with
  | nil => rfl
  | cons e es ih =>
    rcases run : s.register e with ⟨s', err | u⟩
    · rw [registerAll_of_error run] at ok
      cases ok
    · rw [registerAll_of_ok run] at ok
      rw [turns_of_ok run, List.map_cons, ih ok]

theorem opensIn_of_accepted {es : List (TypedEntry δ)} (ok : (s.registerAll es).2 = .ok ()) :
    OpensIn (s.turns es) g ↔ .group g ∈ es := by
  have accepted := registerAll_ok_iff.1 ok
  conv => rhs; rw [← turns_of_accepted ok]
  rw [List.mem_map]
  constructor
  · rintro ⟨t, ht, opened, -⟩
    exact ⟨t, ht, opened⟩
  · rintro ⟨t, ht, opened⟩
    exact ⟨t, ht, opened, accepted t ht⟩

theorem mem_withType_group {τ : Type} {es : List (Entry δ Unit)}
    {type : String → Definition δ → τ} : .group g ∈ es.map (Entry.withType type) ↔ .group g ∈ es := by
  rw [List.mem_map]
  constructor
  · rintro ⟨e, he, same⟩
    cases e <;> cases same
    exact he
  · exact fun he => ⟨.group g, he, rfl⟩

theorem groups_extendVirtual (s : Schema δ) (path : String) (options : Table Json)
    (getters : List Getter) (setters : List Setter) :
    (s.extendVirtual path options getters setters).1.groups = s.groups := by
  unfold extendVirtual virtual
  cases Table.get? s.virtuals path with
  | some v => rfl
  | none => cases Tree.insertVirtual (Path.segments path) s.tree <;> rfl

variable [Document δ]

/-- A group is there once a plain call is made if it was there before or the call opened it. -/
theorem mem_groups_run {c : Call δ} (plain : c.IsPlain) :
    g ∈ (c.run s).1.groups ↔ g ∈ s.groups ∨ OpensIn (c.turns s) g := by
  have same {ts : List (Turn δ)} (groups : (c.run s).1.groups = s.groups)
      (none : ¬ OpensIn ts g) : g ∈ (c.run s).1.groups ↔ g ∈ s.groups ∨ OpensIn ts g := by
    rw [groups]
    exact ⟨.inl, fun h => h.resolve_right none⟩
  unfold Call.turns
  split
  · next fields front => exact mem_groups_registerAll_iff
  · next path d =>
    refine same (groups_declareAs s path d _) fun opens => ?_
    cases (opensIn_singleton.1 opens).1
  · next noObject noField =>
    -- no other call has entries, and none but an object opens a group
    refine same ?_ opensIn_nil
    cases plain.names s with
    | add d front =>
      cases d with
      | object fields => exact absurd rfl (noObject fields front)
      | _ => rfl
    | declare path d => exact absurd rfl (noField path d)
    | virtual path options getters setters => exact groups_extendVirtual s path options getters setters
    | other same => exact same.groups

/-- The groups that are there after any calls. -/
theorem mem_groups_runAll (s₀ : Schema δ) (calls : List (Call δ)) :
    g ∈ (Call.runAll s₀ calls).groups ↔
      g ∈ s₀.groups ∨ OpensIn (Call.allTurns (Call.historyAll s₀ calls)) g := by
  have start (g : String) : g ∈ s₀.groups ↔
      g ∈ s₀.groups ∨ OpensIn (Call.allTurns ([] : List (Schema δ × Call δ))) g :=
    ⟨.inl, fun h => h.resolve_right opensIn_nil⟩
  refine Call.runAll_induct (P := fun past s => ∀ g, g ∈ s.groups ↔
    g ∈ s₀.groups ∨ OpensIn (Call.allTurns past) g) (fun past s c plain h g => ?_) calls [] s₀ start g
  rw [mem_groups_run plain, h, Call.allTurns_snoc, opensIn_append, or_assoc]

/-! ### Groups that a definition opens -/

/-- What a schema is completed with opens no groups. -/
theorem Addition.groups {o : Options} (h : Addition o s s') : s'.groups = s.groups := by
  cases h with
  | identifier run => exact (grown_register run).1.groups
  | virtual run => exact (showsId_addIdVirtual run).groups
  | time _ _ run => exact (grown_register run).1.groups
  | other same _ _ => exact same.groups

theorem mem_groups_assemble {o : Options} {es : List (TypedEntry δ)}
    (run : assemble o es = .ok s) : g ∈ s.groups ↔ .group g ∈ es := by
  obtain ⟨s₁, declared, additions⟩ := additions_assemble run
  have groups : s.groups = s₁.groups :=
    additions.keep (P := fun s => s.groups = s₁.groups) (fun _ _ st h => st.groups.trans h) rfl
  have accepted : ((empty o).registerAll es).2 = .ok () := by rw [declared]
  have opened : g ∈ ((empty o).registerAll es).1.groups ↔ _ := mem_groups_registerAll_iff
  rw [opensIn_of_accepted accepted, declared] at opened
  rw [groups, opened]
  simp [empty]

/-- The groups of a compiled schema are those of its definition. -/
theorem mem_groups_compile {o : Options} {d : Definition δ} (compiled : compile o d = .ok s) :
    g ∈ s.groups ↔
      ∃ fields, d = .object fields ∧ .group g ∈ Definition.entries o.typeKey "" fields := by
  unfold compile at compiled
  split at compiled
  · next fields =>
    rw [mem_groups_assemble compiled, mem_withType_group]
    constructor
    · intro written
      exact ⟨fields, rfl, written⟩
    · rintro ⟨_, same, written⟩
      cases same
      exact written
  · rw [mem_groups_assemble compiled]
    simp
  · cases compiled

/-! ### After any calls -/

/-- Whether a path was written as a group: in the definition that was compiled, or in an object that
was added, among the entries that were accepted. -/
def WrittenAsGroup (o : Options) (d : Definition δ) (past : List (Schema δ × Call δ))
    (path : String) : Prop :=
  (∃ fields, d = .object fields ∧ .group path ∈ Definition.entries o.typeKey "" fields) ∨
    OpensIn (Call.allTurns past) path

/-- The groups of a schema are the paths that were written as groups. -/
theorem mem_groups_iff_written {o : Options} {d : Definition δ} {s₀ : Schema δ}
    (compiled : compile o d = .ok s₀) (calls : List (Call δ)) :
    g ∈ (Call.runAll s₀ calls).groups ↔ WrittenAsGroup o d (Call.historyAll s₀ calls) g := by
  rw [mem_groups_runAll, mem_groups_compile compiled, WrittenAsGroup]

/-- What a path above a field stands for: a branch of the tree, and a group if it was written as
one. -/
structure StandsAbove (s : Schema δ) (path : String) (written : Prop) : Prop where
  branch : ∃ children, Tree.get? (Path.segments path) s.tree = some (.branch children)
  nested : (s.classify path).2 = .nested ↔ written
  undefined : (s.classify path).2 = .adhocOrUndefined ↔ ¬ written

/-- Whatever calls are made on a compiled schema, in whatever order and whether they fail or not,
all ancestors of a field are branches of the tree, and those are groups that were written as
such. -/
theorem above_runAll {o : Options} {d : Definition δ} {s₀ : Schema δ}
    (compiled : compile o d = .ok s₀) (calls : List (Call δ)) {p a : String}
    (field : Table.contains (Call.runAll s₀ calls).fields p = true)
    (above : Path.isBelow a p = true) :
    StandsAbove (Call.runAll s₀ calls) a
      (WrittenAsGroup o d (Call.historyAll s₀ calls) a) := by
  have order : InOrder (Call.runAll s₀ calls) := .runAll compiled calls
  have written := mem_groups_iff_written (g := a) compiled calls
  rw [← List.contains_iff_mem] at written
  have class_eq := order.classify_above field above
  refine ⟨order.coherent.branch_above field above, ?_, ?_⟩
  all_goals
    rw [class_eq, ← written]
    cases (Call.runAll s₀ calls).groups.contains a <;> simp

/-- Someone with a name, which is written as a group, and a telephone, which is not. -/
def contactDefinition : Definition MemoryDocument :=
  .object [("name", .object [("first", .literal (.str "String"))]),
    ("phone.home", .literal (.str "Number"))]

/-- Calls that add a job as a group and an address as two fields, and then fail half way. -/
def contactCalls : List (Call MemoryDocument) :=
  [.add (.object [("job", .object [("title", .literal (.str "String"))])]) "",
    .declare "address.city" (.literal (.str "String")),
    .add (.object [("street", .literal (.str "String")), ("number", .literal .null)]) "address."]

theorem above_runAll_contact : ∃ contact : Schema MemoryDocument,
    compile {} contactDefinition = .ok contact ∧
      StandsAbove (Call.runAll contact contactCalls) "job"
        (WrittenAsGroup {} contactDefinition (Call.historyAll contact contactCalls) "job") ∧
      StandsAbove (Call.runAll contact contactCalls) "address"
        (WrittenAsGroup {} contactDefinition (Call.historyAll contact contactCalls) "address") := by
  have h : ((compile {} contactDefinition).toOption.any fun contact =>
      Table.contains (Call.runAll contact contactCalls).fields "job.title" &&
        Table.contains (Call.runAll contact contactCalls).fields "address.street") = true := by
    decide +kernel
  obtain ⟨contact, compiled, h⟩ := exists_ok_of_any h
  obtain ⟨title, street⟩ := (Bool.and_eq_true _ _).mp h
  exact ⟨contact, compiled, above_runAll compiled contactCalls title (by decide),
    above_runAll compiled contactCalls street (by decide)⟩

def firstNameCall : Call MemoryDocument := .declare "name.first" (.literal (.str "String"))

/-- The first name has a branch above it that is no group, though no call fails. -/
theorem branch_without_group : ∃ s₀ : Schema MemoryDocument,
    compile {} (.object []) = .ok s₀ ∧ Call.AllSucceed s₀ [firstNameCall] ∧
      Table.contains (Call.runAll s₀ [firstNameCall]).fields "name.first" = true ∧
        Path.isBelow "name" "name.first" = true ∧
          ((Call.runAll s₀ [firstNameCall]).classify "name").2 = .adhocOrUndefined := by
  have h : ((compile {} (.object [])).toOption.any fun s₀ : Schema MemoryDocument =>
      ((Call.run s₀ firstNameCall).2.toOption.any fun _ => true) &&
        (Table.contains (Call.runAll s₀ [firstNameCall]).fields "name.first" &&
          decide (((Call.runAll s₀ [firstNameCall]).classify "name").2 = .adhocOrUndefined))) =
            true := by
    decide +kernel
  obtain ⟨s₀, compiled, h⟩ := exists_ok_of_any h
  simp only [Bool.and_eq_true, decide_eq_true_eq] at h
  obtain ⟨succeeds, there, undefined⟩ := h
  obtain ⟨_, ok, -⟩ := exists_ok_of_any succeeds
  exact ⟨s₀, compiled, ⟨ok, trivial⟩, there, by decide, undefined⟩

end DocSchema.Schema
