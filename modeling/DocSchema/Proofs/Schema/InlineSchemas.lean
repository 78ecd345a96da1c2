import DocSchema.Proofs.Schema.Automatic
import DocSchema.Proofs.Table.Order

/-!
# Schemas that are written inline

Where a definition holds no compiled schema, all schemas inside the compiled one were written
inline, as the elements of arrays. A schema may stand inside another one at any depth (`Inside`): as
the documents of an array, below the elements of arrays of arrays, and in the fields of such schemas
again.

Each of them is compiled with the options for children, which are those for the children of children
too. So all of them have the type key of the outermost schema, each has an identifier of its own and
the virtual that shows it or something else by its name (`inlined_of_inside`).
-/

namespace DocSchema.Schema

open Definition

variable {δ : Type} {o : Options} {d : Definition δ} {s s' c : Schema δ}

/-- A schema that stands inside another one, at any depth. -/
inductive Inside (s : Schema δ) : Schema δ → Prop where
  | field {e : String × FieldType δ} {c : Schema δ} (known : e ∈ s.fields)
      (inner : c ∈ e.2.schemas) : Inside s c
  | deeper {b : Schema δ} {e : String × FieldType δ} {c : Schema δ} (outer : Inside s b)
      (known : e ∈ b.fields) (inner : c ∈ e.2.schemas) : Inside s c

/-- Whether the name of the virtual that shows the identifier is bound. -/
def BindsShown (s : Schema δ) : Prop := ∃ x, Tree.get? ["id"] s.tree = some x

/-- A schema as it is compiled where it is written inline. -/
structure Inlined (o : Options) (c : Schema δ) : Prop where
  /-- All other options are as they are by default. -/
  options : c.options = { typeKey := o.typeKey, minimize := o.minimize }
  hasId : c.HasId
  bindsShown : c.BindsShown

/-! ### What is bound at the top of the tree -/

/-- Declaring a field unbinds nothing at the top. -/
theorem exists_top_register {path name : String} {type : Except SchemaError (FieldType δ)}
    (run : s.register (.field path d type) = (s', .ok ()))
    (bound : ∃ y, Tree.get? [name] s.tree = some y) : ∃ y, Tree.get? [name] s'.tree = some y := by
  obtain ⟨_, t, placed, -, rfl⟩ := register_field_ok.1 run
  obtain ⟨-, -, tree, inserted, rfl⟩ := place_ok placed
  obtain ⟨y, there⟩ := bound
  rw [adopt_tree]
  exact (Tree.insertField_placed (Path.segments_ne_nil path) inserted).exists_top there

variable [Document δ]

/-- No addition unbinds a name at the top. -/
theorem Addition.exists_top {name : String} (step : Addition o s s')
    (bound : ∃ y, Tree.get? [name] s.tree = some y) : ∃ y, Tree.get? [name] s'.tree = some y := by
  cases step with
  | identifier run => exact exists_top_register run bound
  | time _ _ run => exact exists_top_register run bound
  | other same _ _ => rwa [same.tree]
  | virtual run =>
    rcases (showsId_addIdVirtual run).tree with same | inserted
    · rwa [same]
    · obtain ⟨y, there⟩ := bound
      exact (Tree.insertVirtual_placed (by simp) inserted).exists_top there

omit [Document δ] in
/-- Where the virtual that shows the identifier is asked for, its name is bound in the end. -/
theorem bindsShown_addIdVirtual (wanted : s.options.idVirtual = true) (noVirtual : s.virtuals = [])
    (run : s.addIdVirtual = (s', .ok ())) : s'.BindsShown := by
  have one : Path.segments "id" = ["id"] := by decide
  by_cases free : (Tree.get? ["id"] s.tree).isNone = true
  · rw [addIdVirtual, wanted, free, extendVirtual, Schema.virtual, noVirtual, one] at run
    cases inserted : Tree.insertVirtual ["id"] s.tree with
    | error blocking =>
      rw [inserted] at run
      cases run
    | ok tree =>
      rw [inserted] at run
      cases run
      exact ⟨_, (Tree.insertVirtual_placed (by simp) inserted).self⟩
  · rw [addIdVirtual, wanted, Bool.true_and, if_neg free] at run
    cases run
    exact Option.ne_none_iff_exists'.1 fun nothing => free (by rw [nothing]; rfl)

/-! ### What is asked for is there -/

/-- Where an identifier is asked for, there is one in the end. -/
theorem hasId_addIdField (wanted : s.options.idField = true)
    (run : s.addIdField = (s', .ok ())) : s'.HasId := by
  have had := lacksId_addIdField run
  rw [lacksId, options_addIdField run, wanted] at had
  unfold HasId
  cases field : Table.contains s'.fields "_id" with
  | true => exact .inl rfl
  | false => exact .inr (by simpa [field] using had)

/-- An addition takes no field and no group away. -/
theorem Addition.grown (step : Addition o s s') : Grown s s' := by
  cases step with
  | identifier run => exact (grown_register run).1
  | time _ _ run => exact (grown_register run).1
  | other same options _ => exact .of_same same options
  | virtual run =>
    have shows := showsId_addIdVirtual run
    exact ⟨shows.options, shows.groups, fun key known => by rwa [shows.fields]⟩

/-- A schema is compiled with the options that are given. It has an identifier if one is asked for,
and the name of the virtual that shows it is bound if that is asked for. -/
structure Completed (o : Options) (s : Schema δ) : Prop where
  options : s.options = o
  hasId : o.idField = true → s.HasId
  bindsShown : o.idVirtual = true → s.BindsShown

theorem Completed.addition (step : Addition o s s') (h : Completed o s) : Completed o s' where
  options := step.options.trans h.options
  hasId wanted := by
    have grown := step.grown
    exact (h.hasId wanted).imp (grown.fields "_id") fun known => by rwa [grown.groups]
  bindsShown wanted := step.exists_top (h.bindsShown wanted)

theorem completed_assemble {es : List (TypedEntry δ)} (run : assemble o es = .ok s) :
    Completed o s := by
  obtain ⟨s₁, s₂, s₃, s₄, declared, identified, shown, stamped, rfl⟩ := assemble_ok.1 run
  have options₁ : s₁.options = o := options_registerAll declared
  have options₂ : s₂.options = o := (options_addIdField identified).trans options₁
  have completed : Completed o s₃ := by
    refine ⟨options_shown declared identified shown, fun wanted => ?_, fun wanted => ?_⟩
    · have shows := showsId_addIdVirtual shown
      rw [HasId, shows.fields, shows.groups]
      exact hasId_addIdField (by rwa [options₁]) identified
    · exact bindsShown_addIdVirtual (by rwa [options₂]) (no_virtual declared identified) shown
  have builtIn := completed.addition addition_addBuiltIn
  have more := additions_addStampFields builtIn.options stamped
  exact (more.keep (fun _ _ => Completed.addition) builtIn).addition addition_addStampHook

theorem completed_compile (compiled : compile o d = .ok s) : Completed o s := by
  unfold compile at compiled
  split at compiled
  · exact completed_assemble compiled
  · exact completed_assemble compiled
  · cases compiled

/-! ### The schemas of a definition without any -/

/-- Where a definition holds no compiled schema, neither does any definition in the tree of the
schema that it compiles to. -/
theorem mirrors_of_bare (bare : d.schemas = []) (compiled : compile o d = .ok s) :
    Mirrors o (fun x => x.schemas = []) s := by
  have date : (Definition.type (.scalar .date) : Definition δ).schemas = [] := rfl
  unfold compile at compiled
  split at compiled
  · next fields =>
    refine .assemble (fun e known => ?_) (idDefinition_schemas _) date compiled
    obtain ⟨e, entry, rfl⟩ := List.mem_map.1 known
    cases e with
    | field path x u =>
      refine ⟨rfl, List.eq_nil_iff_forall_not_mem.2 fun c inner => ?_⟩
      have held := schemas_of_mem_entries fields entry c inner
      rw [schemas] at bare
      rw [bare] at held
      cases held
    | _ => trivial
  · exact .assemble (by simp) (idDefinition_schemas _) date compiled
  · cases compiled

/-- Where a definition holds no compiled schema, the schemas in the fields of what it compiles to
are compiled from definitions of this kind too, with the options for children. -/
theorem exists_inline (bare : d.schemas = []) (compiled : compile o d = .ok s)
    {e : String × FieldType δ} (known : e ∈ s.fields) (inner : c ∈ e.2.schemas) :
    ∃ x : Definition δ, x.schemas = [] ∧ compile o.forChild x = .ok c := by
  have mirrors := mirrors_of_bare bare compiled
  obtain ⟨x, -, none_held, typed⟩ :=
    mirrors.field ((Table.mem_iff_get? mirrors.coherent.distinct).1 known)
  rcases schemas_typeAt typed c inner with held | ⟨y, -, fewer, inlined⟩
  · rw [none_held] at held
    cases held
  · refine ⟨y, List.eq_nil_iff_forall_not_mem.2 fun b held => ?_, inlined⟩
    have outer := fewer b held
    rw [none_held] at outer
    cases outer

/-- Every schema inside a compiled one was written inline, at whatever depth. -/
theorem exists_inline_of_inside (bare : d.schemas = []) (compiled : compile o d = .ok s)
    (inside : Inside s c) : ∃ x : Definition δ, x.schemas = [] ∧ compile o.forChild x = .ok c := by
  induction inside with
  | field known inner => exact exists_inline bare compiled known inner
  | deeper _ known inner ih =>
    obtain ⟨x, bare', compiled'⟩ := ih
    -- the options for the children of a child are those for the child
    exact exists_inline (o := o.forChild) bare' compiled' known inner

/-- Every schema inside one that is compiled from a definition without compiled schemas takes its
type key and how empty objects are stored from there, has the defaults for all other options, and
has an identifier. -/
theorem inlined_of_inside (bare : d.schemas = []) (compiled : compile o d = .ok s) :
    s.options = o ∧ ∀ c, Inside s c → Inlined s.options c := by
  have options : s.options = o := (completed_compile compiled).options
  refine ⟨options, fun c inside => ?_⟩
  obtain ⟨x, -, inlined⟩ := exists_inline_of_inside bare compiled inside
  have completed := completed_compile inlined
  subst options
  exact ⟨completed.options, completed.hasId rfl, completed.bindsShown rfl⟩

def houseDefinition : Definition MemoryDocument :=
  .object [("rooms", .array [.object [
    ("name", .literal (.str "String")),
    ("doors", .object [("kind", .literal (.str "Array")),
      ("cast", .array [.object [("id", .literal (.str "Number"))]])])]])]

/-- Options under which the type of a field stands under another key. -/
def houseOptions : Options :=
  { typeKey := "kind", minimize := false, strict := false, idField := false, idVirtual := false }

theorem inlined_of_inside_house : ∃ house room door : Schema MemoryDocument,
    compile houseOptions houseDefinition = .ok house ∧ Inside house room ∧ Inside room door ∧
      Inside house door ∧ door.options = { typeKey := "kind", minimize := false } ∧ door.HasId ∧
        door.BindsShown := by
  have h : ((compile houseOptions houseDefinition).toOption.any fun house =>
      house.fields.any fun e => e.2.schemas.any fun room =>
        room.fields.any fun e => e.2.schemas.any fun _ => true) = true := by decide +kernel
  obtain ⟨house, compiled, h⟩ := exists_ok_of_any h
  obtain ⟨rooms, inHouse, h⟩ := List.any_eq_true.1 h
  obtain ⟨room, isRoom, h⟩ := List.any_eq_true.1 h
  obtain ⟨doors, inRoom, h⟩ := List.any_eq_true.1 h
  obtain ⟨door, isDoor, -⟩ := List.any_eq_true.1 h
  have inside : Inside house door := .deeper (.field inHouse isRoom) inRoom isDoor
  obtain ⟨options, inlined⟩ := inlined_of_inside (by decide) compiled
  obtain ⟨options', hasId, bindsShown⟩ := inlined door inside
  rw [options] at options'
  exact ⟨house, room, door, compiled, .field inHouse isRoom, .field inRoom isDoor, inside, options',
    hasId, bindsShown⟩

end DocSchema.Schema
