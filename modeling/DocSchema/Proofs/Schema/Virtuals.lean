import DocSchema.Document.Memory
import DocSchema.Proofs.Schema.Automatic
import DocSchema.Proofs.Schema.History
import DocSchema.Proofs.Tree.Binding

/-!
# What becomes of virtuals

A virtual is declared by the first call on its name that does not fail, and every call on the name
adds to its getters and setters. So the virtual of a name is what the calls on this name add up to
(`Virtual.ofUses`), whatever else is called in between and whether it fails or not
(`computed_runAll`). The getters of a virtual are composed, the one added last is applied first;
the setters are composed in the same way, as functions of a value and a document.

A call on a name without a virtual fails exactly where the tree has no place for one, and a call
that fails changes nothing (`extendVirtual_cases`).
-/

namespace DocSchema

variable {δ : Type}

/-! ### Uses of a virtual -/

/-- What a call asks of a virtual. -/
structure Virtual.Use where
  options : Table Json
  getters : List Getter
  setters : List Setter

namespace Virtual

/-- What the uses of a name add up to. The options count on the first one only. -/
def ofUses (name : String) : List Use → Option Virtual
  | [] => none
  | first :: later => some {
      path := name
      options := first.options
      getters := (first :: later).flatMap Use.getters
      setters := (first :: later).flatMap Use.setters }

/-- A virtual after one more use, which declares it if it is the first one. -/
def used (name : String) (use : Use) : Option Virtual → Virtual
  | none => { path := name, options := use.options, getters := use.getters, setters := use.setters }
  | some v => v.extend use.getters use.setters

theorem ofUses_concat (name : String) (uses : List Use) (use : Use) :
    ofUses name (uses ++ [use]) = some (used name use (ofUses name uses)) := by
  cases uses with
  | nil => simp [ofUses, used]
  | cons first later => simp [ofUses, used, extend]

/-! ### Chains of functions -/

/-- Functions in a row, composed. The last one is applied first. -/
def composed {α : Type} (fs : List (α → α)) : α → α := fs.foldr (· ∘ ·) id

/-- What a getter makes of a value, in the scope of a document. -/
def getterStep (scope : Json) (getter : Getter) : Json → Json := fun value => getter value scope

def setterStep (setter : Setter) : Json × Json → Json × Json := fun state => setter state.1 state.2

theorem applyGetters_eq (v : Virtual) (value scope : Json) :
    v.applyGetters value scope = composed (v.getters.map (getterStep scope)) value := by
  unfold applyGetters
  induction v.getters with
  | nil => rfl
  | cons g gs ih =>
    rw [List.foldr_cons, ih]
    rfl

theorem applySetters_eq (v : Virtual) (value scope : Json) :
    v.applySetters value scope = composed (v.setters.map setterStep) (value, scope) := by
  unfold applySetters
  induction v.setters with
  | nil => rfl
  | cons s ss ih =>
    rw [List.foldr_cons, ih]
    rfl

end Virtual

open Virtual

namespace Schema

variable {s s' : Schema δ} {path name : String} {options : Table Json} {getters : List Getter}
  {setters : List Setter}

/-! ### One call -/

/-- Whether a name has no virtual and the tree has no place for one: a field or a virtual stands on
the way to it, or it is bound to a field or a branch itself. -/
def NoPlace (s : Schema δ) (name : String) : Prop :=
  Table.get? s.virtuals name = none ∧
    ((∃ blocking, Tree.LeafOnWay (Path.segments name) blocking s.tree) ∨
      ∃ x, Tree.get? (Path.segments name) s.tree = some x ∧ x ≠ .virtual)

/-- What a call on a virtual does. -/
theorem extendVirtual_cases (s : Schema δ) (path : String) (options : Table Json)
    (getters : List Getter) (setters : List Setter) :
    (s.NoPlace path ∧ ∃ blocking, s.extendVirtual path options getters setters =
        (s, .error (s.conflict path (Path.join blocking)))) ∨
      ¬ s.NoPlace path ∧ ∃ s' v, s.extendVirtual path options getters setters = (s', .ok v) ∧
        v = used path ⟨options, getters, setters⟩ (Table.get? s.virtuals path) ∧
          s'.virtuals = Table.insert s.virtuals path v := by
  unfold extendVirtual Schema.virtual NoPlace
  cases known : Table.get? s.virtuals path with
  | some v => exact .inr ⟨by simp, _, _, rfl, rfl, rfl⟩
  | none =>
    rw [← Tree.insertVirtual_fails_iff (Path.segments_ne_nil path)]
    cases run : Tree.insertVirtual (Path.segments path) s.tree with
    | error blocking => exact .inl ⟨⟨rfl, blocking, rfl⟩, blocking, rfl⟩
    | ok tree =>
      refine .inr ⟨?_, _, _, rfl, ?_, Table.insert_insert ..⟩
      · rintro ⟨-, blocking, failed⟩
        cases failed
      · simp [extend, used]

/-- There is no place below a field or a virtual. -/
theorem Coherent.noPlace_below (h : Coherent s) {other : String} (known : s.Declares other)
    (below : Path.isBelow other name = true) : s.NoPlace name := by
  constructor
  · rw [Table.get?_eq_none_iff]
    by_contra declared
    have apart := h.not_below known (.inr (by simpa using declared))
    rw [below] at apart
    cases apart
  · obtain ⟨rest, given, split⟩ := Path.isBelow_iff_segments.1 below
    exact .inl ⟨Path.segments other, h.leaf_of_declares known, rest, given, split.symm⟩

/-! ### The uses of a name -/

/-- What a call asks of the virtual of a name, if it succeeds. -/
def useOf (name : String) : Schema δ × Call δ → Option Use
  | (s, .virtual path options getters setters) =>
    if path = name ∧ (s.extendVirtual path options getters setters).2.isOk then
      some { options, getters, setters }
    else none
  | _ => none

def usesOf (first : String → List Use) (past : List (Schema δ × Call δ)) (name : String) :
    List Use :=
  first name ++ past.filterMap (useOf name)

theorem usesOf_concat (first : String → List Use) (past : List (Schema δ × Call δ))
    (last : Schema δ × Call δ) (name : String) :
    usesOf first (past ++ [last]) name = usesOf first past name ++ (useOf name last).toList := by
  rw [usesOf, usesOf, List.filterMap_append, List.append_assoc]
  cases h : useOf name last <;> simp [h]

/-! ### The virtuals that are there from the start -/

def showsIdUse : Use := { options := [], getters := [idText], setters := [] }

/-- The uses of a name in a schema that was just compiled: it may show the identifier. -/
def firstUses (s : Schema δ) (name : String) : List Use :=
  match Tree.get? ["id"] s.tree with
  | some .virtual => if name = "id" then [showsIdUse] else []
  | _ => []

theorem virtuals_addIdVirtual (noVirtual : s.virtuals = []) (run : s.addIdVirtual = (s', .ok ())) :
    s'.virtuals = [] ∨ s'.virtuals = [("id", used "id" showsIdUse none)] := by
  unfold addIdVirtual at run
  split at run
  · rcases extendVirtual_cases s "id" [] [idText] [] with ⟨-, _, failed⟩ | ⟨-, _, v, ok, rfl, kept⟩
    · rw [failed] at run
      cases run
    · rw [ok] at run
      cases run
      rw [noVirtual] at kept
      exact .inr kept
  · cases run
    exact .inl noVirtual

theorem virtuals_addStampFields (s : Schema δ) : s.addStampFields.1.virtuals = s.virtuals := by
  unfold addStampFields
  split
  · rfl
  · exact virtuals_registerAll s _

variable [Document δ] {o : Options} {d : Definition δ} {s₀ : Schema δ}

theorem virtuals_compile (compiled : compile o d = .ok s₀) :
    s₀.virtuals = [] ∨ s₀.virtuals = [("id", used "id" showsIdUse none)] := by
  obtain ⟨es, same⟩ := exists_entries compiled
  rw [(same o rfl).1] at compiled
  obtain ⟨s₁, s₂, s₃, s₄, declared, identified, shown, stamped, rfl⟩ := assemble_ok.1 compiled
  have timed := virtuals_addStampFields s₃.addBuiltIn
  rw [stamped] at timed
  have kept : s₄.addStampHook.virtuals = s₃.virtuals :=
    (sameNames_addStampHook s₄).virtuals.trans timed
  rw [kept]
  exact virtuals_addIdVirtual (no_virtual declared identified) shown

/-- In a schema that was just compiled no name has a virtual but the one that shows the
identifier. -/
theorem stored_compile (compiled : compile o d = .ok s₀) (name : String) :
    Table.get? s₀.virtuals name = ofUses name (firstUses s₀ name) := by
  have coherent : Coherent s₀ := (Coherent.empty o).steps (Call.steps_compile_runAll compiled [])
  have one : Path.segments "id" = ["id"] := by decide
  unfold firstUses
  rcases virtuals_compile compiled with nothing | shown
  · split
    · next node =>
      obtain ⟨path, known, -⟩ := coherent.virtual_node.1 node
      rw [nothing] at known
      cases known
    · rw [nothing]
      rfl
  · have node := coherent.virtual_node.2 ⟨"id", by rw [shown]; rfl, one⟩
    rw [node, shown]
    by_cases h : name = "id"
    · subst h
      rfl
    · simp [Table.get?, Ne.symm h, h, ofUses]

/-! ### After any calls -/

/-- The virtual of a name after a call: a use counts, and nothing else changes it. -/
theorem stored_run {c : Call δ} (plain : c.IsPlain) (s : Schema δ) (name : String) :
    Table.get? (c.run s).1.virtuals name =
      match useOf name (s, c) with
      | none => Table.get? s.virtuals name
      | some use => some (used name use (Table.get? s.virtuals name)) := by
  cases c with
  | add d front =>
    cases d with
    | object fields => exact congrArg (Table.get? · name) (virtuals_registerAll s _)
    | _ => rfl
  | declare path d =>
    have kept := virtuals_register s (.field path d (d.typeAt s.options path))
    rw [register_field_fst] at kept
    exact congrArg (Table.get? · name) kept
  | virtual path options getters setters =>
    rcases extendVirtual_cases s path options getters setters with
      ⟨-, blocking, run⟩ | ⟨-, s', v, run, rfl, kept⟩
    · rw [useOf, Call.run, run]
      simp [Call.forget, Except.isOk, Except.toBool]
    · rw [useOf, Call.run, run]
      by_cases own : path = name
      · subst own
        simp [Call.forget, Except.isOk, Except.toBool, kept]
      · simp [Call.forget, own, kept, Table.get?_insert_of_ne _ _ (Ne.symm own)]
  | _ =>
    -- no other call touches the names of a schema
    cases plain.names s with
    | other same => rw [same.virtuals]; rfl

/-- What the virtuals of a schema are that began with some uses and on which some calls were
made. -/
structure Computed (first : String → List Use) (past : List (Schema δ × Call δ)) (s : Schema δ) :
    Prop where
  /-- A virtual has the options of its first use, and the functions of all uses in order. -/
  stored : ∀ name, Table.get? s.virtuals name = ofUses name (usesOf first past name)
  getters : ∀ name v, Table.get? s.virtuals name = some v → ∀ value scope,
    v.applyGetters value scope =
      composed (((usesOf first past name).flatMap Use.getters).map (getterStep scope)) value
  setters : ∀ name v, Table.get? s.virtuals name = some v → ∀ value scope,
    v.applySetters value scope =
      composed (((usesOf first past name).flatMap Use.setters).map setterStep) (value, scope)
  /-- A call changes nothing where there is no place for its virtual. -/
  refused : ∀ name, s.NoPlace name → ∀ options getters setters, ∃ blocking,
    Call.run s (.virtual name options getters setters) =
      (s, .error (s.conflict name (Path.join blocking)))
  accepted : ∀ name, ¬ s.NoPlace name → ∀ options getters setters, ∃ s',
    Call.run s (.virtual name options getters setters) = (s', .ok ())
  below : ∀ other name, s.Declares other → Path.isBelow other name = true → s.NoPlace name

theorem Coherent.computed {first : String → List Use} {past : List (Schema δ × Call δ)}
    (h : Coherent s)
    (stored : ∀ name, Table.get? s.virtuals name = ofUses name (usesOf first past name)) :
    Computed first past s := by
  have functions : ∀ name v, Table.get? s.virtuals name = some v →
      v.getters = (usesOf first past name).flatMap Use.getters ∧
        v.setters = (usesOf first past name).flatMap Use.setters := by
    intro name v known
    rw [stored] at known
    cases uses : usesOf first past name with
    | nil =>
      rw [uses] at known
      cases known
    | cons use later =>
      rw [uses] at known
      cases known
      exact ⟨rfl, rfl⟩
  constructor
  case stored => exact stored
  case getters =>
    intro name v known value scope
    rw [applyGetters_eq, (functions name v known).1]
  case setters =>
    intro name v known value scope
    rw [applySetters_eq, (functions name v known).2]
  case refused =>
    intro name noPlace options getters setters
    rcases extendVirtual_cases s name options getters setters with
      ⟨-, blocking, run⟩ | ⟨place, -⟩
    · exact ⟨blocking, by rw [Call.run, run]; rfl⟩
    · exact absurd noPlace place
  case accepted =>
    intro name place options getters setters
    rcases extendVirtual_cases s name options getters setters with
      ⟨noPlace, -⟩ | ⟨-, s', v, run, -⟩
    · exact absurd noPlace place
    · exact ⟨s', by rw [Call.run, run]; rfl⟩
  case below => exact fun other name => h.noPlace_below

/-- Whatever is called on a compiled schema, each virtual is what the calls on its name add up to:
it keeps the options of the first one, and its getters and setters are composed from the last one to
the first one. -/
theorem computed_runAll (compiled : compile o d = .ok s₀) (calls : List (Call δ)) :
    Computed (firstUses s₀) (Call.historyAll s₀ calls) (Call.runAll s₀ calls) := by
  have coherent : Coherent (Call.runAll s₀ calls) :=
    (Coherent.empty o).steps (Call.steps_compile_runAll compiled calls)
  refine coherent.computed fun name => ?_
  -- what holds after a call is read off the history before it
  refine Call.runAll_induct (P := fun past s => Table.get? s.virtuals name =
    ofUses name (usesOf (firstUses s₀) past name)) ?step calls [] s₀ ?start
  case step =>
    intro past s c plain before
    rw [stored_run plain, usesOf_concat]
    cases useOf name (s, c) with
    | none => rw [Option.toList_none, List.append_nil, before]
    | some use => rw [Option.toList_some, ofUses_concat, before]
  case start =>
    rw [usesOf, List.filterMap_nil, List.append_nil]
    exact stored_compile compiled name

/-- A getter that appends a mark to a text. -/
def marking (mark : String) : Getter
  | .str text, _ => .str (text ++ mark)
  | v, _ => v

/-- A setter that stores the value as the document. -/
def swapping : Setter := fun value scope => (scope, value)

/-- Calls on two virtuals, with calls that fail and a plugin that fails after its first call. -/
def labelCalls : List (Call MemoryDocument) :=
  [.virtual "label" [("unit", .str "m")] [marking "1"] [swapping],
    .virtual "name" [] [marking "?"] [], .virtual "name.short" [] [marking "?"] [],
    .plugin [.virtual "label" [] [marking "2"] [], .fail (.invalidPath "" false),
      .virtual "label" [] [marking "3"] []],
    .virtual "id" [] [marking "!"] []]

theorem computed_runAll_label : ∃ s₀ : Schema MemoryDocument,
    compile {} namedDefinition = .ok s₀ ∧
    Table.get? (Call.runAll s₀ labelCalls).virtuals "label" = some
      { path := "label", options := [("unit", .str "m")], getters := [marking "1", marking "2"],
        setters := [swapping] } ∧
    Table.get? (Call.runAll s₀ labelCalls).virtuals "id" = some
      { path := "id", getters := [idText, marking "!"] } ∧
    (Call.runAll s₀ labelCalls).NoPlace "name.short" := by
  have h : (compile {} namedDefinition).toOption.map (fun s₀ : Schema MemoryDocument =>
      (usesOf (firstUses s₀) (Call.historyAll s₀ labelCalls) "label",
        usesOf (firstUses s₀) (Call.historyAll s₀ labelCalls) "id",
        Table.contains (Call.runAll s₀ labelCalls).fields "name")) =
    some ([⟨[("unit", .str "m")], [marking "1"], [swapping]⟩, ⟨[], [marking "2"], []⟩],
      [showsIdUse, ⟨[], [marking "!"], []⟩], true) := by
    with_unfolding_all rfl
  cases compiled : compile {} namedDefinition with
  | error e =>
    rw [compiled] at h
    cases h
  | ok s₀ =>
    rw [compiled] at h
    obtain ⟨label, rest⟩ := Prod.mk.inj (Option.some.inj h)
    obtain ⟨id, field⟩ := Prod.mk.inj rest
    have computed := computed_runAll compiled labelCalls
    refine ⟨s₀, rfl, ?_, ?_, computed.below "name" "name.short" (.inl field) (by decide)⟩
    · rw [computed.stored, label]
      rfl
    · rw [computed.stored, id]
      rfl

end Schema

end DocSchema
