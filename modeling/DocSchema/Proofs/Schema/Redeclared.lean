import DocSchema.Proofs.Outcomes
import DocSchema.Proofs.Path.Positions
import DocSchema.Proofs.Schema.Adding
import DocSchema.Proofs.Schema.Embedded

/-!
# Declaring a field again

A field may be declared at the path of an earlier one, which it replaces. Then the new field alone
decides what the paths below it stand for (`StandsAlone`): nothing else is declared there, nor above
it, and what is known of embedded schemas there comes from the schema that the new field embeds. So
these paths are classified as in a schema that has no other field (`classify_redeclared`).

This takes for granted that what was known below the path is gone. It is where the new field embeds
a schema; a field that embeds nothing leaves behind what an earlier one embedded
(`left_behind`).
-/

namespace DocSchema

variable {δ : Type}

/-! ### Types and options -/

/-- Options under which nothing is declared on a schema by itself. -/
def Options.bare (o : Options) : Options :=
  { o with idField := false, idVirtual := false, timestamps := .disabled }

namespace Definition

variable [Document δ]

/-- The type of a field depends only on those options that are inherited by inline schemas. -/
theorem typeAt_congr_options {o o' : Options} (same : o'.forChild = o.forChild) (path : String)
    (d : Definition δ) : d.typeAt o' path = d.typeAt o path := by
  have key : o'.typeKey = o.typeKey := by
    show o'.forChild.typeKey = o.forChild.typeKey
    rw [same]
  have elements {x : Definition δ}
      (hs : shape o.typeKey path (d.record o.typeKey) = .ok (.arrayOf x)) :
      arrayKind o' path x = arrayKind o path x := by
    cases ends : x.isCircular o.typeKey with
    | true =>
      rw [arrayKind_of_isCircular ends, arrayKind_of_isCircular (by rw [key, ends])]
    | false =>
      have smaller := sizeOf_lt_of_shape_record hs ends
      have ih := typeAt_congr_options same path x
      unfold arrayKind
      rw [key, same]
      split
      · rfl
      · rw [ih]
  rw [typeAt_eq, typeAt_eq, key]
  split
  · rfl
  · rfl
  · rfl
  · next x hs => rw [elements hs]
termination_by sizeOf d

end Definition

/-! ### What a field brings in -/

namespace FieldType

/-- The fields of the schema that a field embeds, by their paths from outside. -/
def fieldsBelow (t : FieldType δ) (path : String) : List (String × FieldType δ) :=
  match t.kind with
  | .embedded child =>
    (child.fields ++ child.embeddedFields).map fun e => (Path.below path e.1, e.2)
  | _ => []

def groupsBelow (t : FieldType δ) (path : String) : List String :=
  match t.kind with
  | .embedded child => (child.groups ++ child.embeddedGroups).map (Path.below path)
  | _ => []

def Embeds (t : FieldType δ) : Prop := ∃ child, t.kind = .embedded child

theorem embeds_of_name {t : FieldType δ} (h : t.kind.name = "embedded-document") : t.Embeds := by
  cases kind : t.kind with
  | embedded child => exact ⟨child, kind⟩
  | _ =>
    rw [kind] at h
    exact absurd h (by simp [FieldKind.name])

end FieldType

namespace Schema

variable {s s' : Schema δ} {path : String} {t : FieldType δ}

/-- Whether nothing is known of embedded schemas below a path. -/
def ClearBelow (s : Schema δ) (path : String) : Prop :=
  ∀ k, k ∈ Table.keys s.embeddedFields ∨ k ∈ s.embeddedGroups → Path.isBelow path k = false

theorem ClearBelow.get?_embeddedFields (h : ClearBelow s path) (name : String) :
    Table.get? s.embeddedFields (Path.below path name) = none := by
  apply Table.get?_eq_none_of_not_mem
  intro known
  have clear := h _ (.inl known)
  rw [Path.isBelow_below] at clear
  cases clear

theorem ClearBelow.not_mem_embeddedGroups (h : ClearBelow s path) (name : String) :
    Path.below path name ∉ s.embeddedGroups := by
  intro known
  have clear := h _ (.inr known)
  rw [Path.isBelow_below] at clear
  cases clear

/-- Where there are no fields, nothing is known of embedded schemas. -/
theorem ClearBelow.of_done [Document δ] {o : Options} (h : Done o [] s)
    (embedded : EmbeddedBelow s) (path : String) : ClearBelow s path := by
  intro k known
  obtain ⟨p, hp, -⟩ := embedded k known
  have noFields : s.fields = [] := List.map_eq_nil_iff.1 h.fields
  rw [noFields] at hp
  cases hp

/-- Below a field that is stored, a schema knows the fields that this one brings in, as if it had
known nothing before. -/
theorem get?_adopt_embeddedFields (replaces : t.Embeds ∨ ClearBelow s path) (name : String) :
    Table.get? (s.adopt path t).embeddedFields (Path.below path name) =
      Table.get? (Table.insertAll [] (t.fieldsBelow path)) (Path.below path name) := by
  rw [adopt, FieldType.fieldsBelow]
  cases hk : t.kind with
  | embedded child =>
    apply Table.get?_insertAll_congr
    rw [Table.get?_filter _ fun k => !Path.isBelow path k, Path.isBelow_below]
    rfl
  | scalar _ | mixed | documents _ | array _ =>
    obtain ⟨child, he⟩ | clear := replaces
    · rw [hk] at he
      cases he
    · exact clear.get?_embeddedFields name

theorem mem_adopt_embeddedGroups (replaces : t.Embeds ∨ ClearBelow s path) (name : String) :
    Path.below path name ∈ (s.adopt path t).embeddedGroups ↔
      Path.below path name ∈ t.groupsBelow path := by
  rw [adopt, FieldType.groupsBelow]
  cases hk : t.kind with
  | embedded child =>
    show Path.below path name ∈ List.foldl addName _ _ ↔ _
    rw [mem_foldl_addName, List.mem_filter, Path.isBelow_below]
    simp
  | scalar _ | mixed | documents _ | array _ =>
    obtain ⟨child, he⟩ | clear := replaces
    · rw [hk] at he
      cases he
    · exact iff_of_false (clear.not_mem_embeddedGroups name) List.not_mem_nil

/-! ### A field that stands alone -/

/-- Whether a field alone decides what stands at a path and on the line above and below it. -/
structure StandsAlone (s : Schema δ) (path : String) (t : FieldType δ) : Prop where
  field : Table.get? s.fields path = some t
  no_field : ∀ other, Path.isBelow path other = true ∨ Path.isBelow other path = true →
    Table.get? s.fields other = none
  no_group : ∀ name, Path.below path name ∉ s.groups
  no_virtual : ∀ name, Table.contains s.virtuals (Path.below path name) = false
  fields_below : ∀ name, Table.get? s.embeddedFields (Path.below path name) =
    Table.get? (Table.insertAll [] (t.fieldsBelow path)) (Path.below path name)
  groups_below : ∀ name, Path.below path name ∈ s.embeddedGroups ↔
    Path.below path name ∈ t.groupsBelow path
  nothing_above : ∀ other, Path.isBelow other path = true → Table.get? s.embeddedFields other = none
  forgotten : s.located = []

namespace StandsAlone

theorem direct?_eq (h : StandsAlone s path t) (other : String) :
    s.direct? other = (Table.get? s.fields other).or (Table.get? s.embeddedFields other) := by
  rw [direct?, h.forgotten]
  rfl

/-- Above, at and below the path, the same fields are found in all schemas where the field stands
alone. -/
theorem direct?_congr (h : StandsAlone s path t) (h' : StandsAlone s' path t) {other : String}
    (line : other = path ∨ Path.isBelow path other = true ∨ Path.isBelow other path = true) :
    s'.direct? other = s.direct? other := by
  rw [h.direct?_eq, h'.direct?_eq]
  rcases line with rfl | below | above
  · rw [h.field, h'.field]
    rfl
  · obtain ⟨name, rfl⟩ := Path.isBelow_iff.1 below
    rw [h.no_field _ (.inl below), h'.no_field _ (.inl below), h.fields_below, h'.fields_below]
  · rw [h.no_field _ (.inr above), h'.no_field _ (.inr above), h.nothing_above _ above,
      h'.nothing_above _ above]

theorem hasGroup_congr (h : StandsAlone s path t) (h' : StandsAlone s' path t) (name : String) :
    s'.hasGroup (Path.below path name) = s.hasGroup (Path.below path name) := by
  rw [Bool.eq_iff_iff, hasGroup_iff, hasGroup_iff, KnowsGroup, KnowsGroup, h.groups_below,
    h'.groups_below]
  simp [h.no_group, h'.no_group]

/-- A search that starts below the path looks for a first name on the line of the path. -/
theorem locate_congr (h : StandsAlone s path t) (h' : StandsAlone s' path t) {name : String}
    (positional : Path.isPositional (Path.below path name) = true) :
    s'.locate (Path.below path name) = s.locate (Path.below path name) := by
  obtain ⟨head, rest, steps, above⟩ := Path.steps_of_isPositional positional
  have line : head = path ∨ Path.isBelow path head = true ∨ Path.isBelow head path = true := by
    rcases Path.isBelow_trichotomy above (Path.isBelow_below path name) with same | hb | hb
    · exact .inl same
    · exact .inr (.inr hb)
    · exact .inr (.inl hb)
  unfold locate
  rw [steps]
  show follow (s'.direct? head) false _ = follow (s.direct? head) false _
  rw [h.direct?_congr h' line]

/-- What a path below the field is classified as, without what cannot stand there. -/
theorem classify_snd (h : StandsAlone s path t) (name : String) :
    (s.classify (Path.below path name)).2 =
      if s.hasGroup (Path.below path name) then .nested
      else if (s.direct? (Path.below path name)).isSome then .real
      else if Path.isPositional (Path.below path name) then
        (s.locate (Path.below path name)).pathClass
      else .adhocOrUndefined := by
  have noField : Table.contains s.fields (Path.below path name) = false := by
    rw [← Table.get?_eq_none_iff]
    exact h.no_field _ (.inl (Path.isBelow_below path name))
  have search : (s.remember (Path.below path name)).2 = s.locate (Path.below path name) := by
    rw [remember, h.forgotten]
    rfl
  rw [classify, noField, h.no_virtual, ← search, if_neg Bool.false_ne_true,
    if_neg Bool.false_ne_true]
  split
  · rfl
  · split
    · rfl
    · split <;> rfl

/-- Below the field, paths are classified alike in all schemas where the field stands alone. -/
theorem classify_congr (h : StandsAlone s path t) (h' : StandsAlone s' path t) (name : String) :
    (s'.classify (Path.below path name)).2 = (s.classify (Path.below path name)).2 := by
  have line := Path.isBelow_below path name
  rw [h.classify_snd, h'.classify_snd, h.hasGroup_congr h', h.direct?_congr h' (.inr (.inl line))]
  split
  · rfl
  · split
    · rfl
    · split
      · next positional => rw [h.locate_congr h' positional]
      · rfl

end StandsAlone

/-! ### Schemas in order, whatever is inside -/

/-- What holds of the names of a schema after calls that all succeeded, whatever the schemas are
that the calls brought in. -/
structure Tidy (s : Schema δ) : Prop where
  coherent : Coherent s
  filled : GroupsFilled s
  embedded : EmbeddedBelow s

variable [Document δ]

/-- Steps keep names in order, and a call that succeeds leaves groups filled. -/
theorem Tidy.of_steps {R : Schema δ → Prop} (coherent : Coherent s) (embedded : EmbeddedBelow s)
    (steps : Steps R s s') (filled : GroupsFilled s') : Tidy s' where
  coherent := .steps steps coherent
  filled := filled
  embedded := steps.keep (fun _ _ st h => h.step st) embedded

theorem Tidy.of_compile {o : Options} {d : Definition δ} (compiled : compile o d = .ok s) :
    Tidy s := by
  have steps := steps_compile closed_true o d s (fun _ _ => trivial) compiled
  exact .of_steps (.empty o) (.empty o) steps (groupsFilled_of_compile compiled)

theorem Tidy.runAll (h : Tidy s) {calls : List (Call δ)} (ok : Call.AllSucceed s calls) :
    Tidy (Call.runAll s calls) := by
  have steps := Call.steps_runAll closed_true calls s fun _ _ => trivial
  have filled := Call.groupsFilled_runUntilError calls s ok h.filled
  rw [Call.runUntilError_of_allSucceed calls s ok] at filled
  exact .of_steps h.coherent h.embedded steps filled

theorem Tidy.declare (h : Tidy s) (path : String) (d : Definition δ) :
    Tidy (s.declare path d).1 := by
  have steps : Steps (fun _ => True) s (s.declare path d).1 :=
    steps_declare closed_true fun _ _ => trivial
  exact .of_steps h.coherent h.embedded steps (h.filled.declareAs path d _)

/-- A declaration that succeeds stores a field with the type of its definition. -/
theorem declare_eq_ok {d : Definition δ} (declared : s.declare path d = (s', .ok t)) :
    ∃ bound, s.place path d = .ok bound ∧ d.typeAt s.options path = .ok t ∧
      s' = bound.adopt path t := by
  unfold declare declareAs at declared
  split at declared
  · cases declared
  · next bound placed =>
    split at declared
    · cases declared
    · next t' typed =>
      obtain ⟨rfl, ht⟩ := Prod.mk.inj declared
      obtain rfl := Except.ok.inj ht
      exact ⟨bound, placed, typed, rfl⟩

/-- A field that is declared stands alone, if nothing is left below its path of what was embedded
there before. -/
theorem Tidy.standsAlone (h : Tidy s) {d : Definition δ}
    (declared : s.declare path d = (s', .ok t)) (replaces : t.Embeds ∨ ClearBelow s path) :
    StandsAlone s' path t := by
  have tidy := h.declare path d
  rw [declared] at tidy
  obtain ⟨bound, placed, -, rfl⟩ := declare_eq_ok declared
  obtain ⟨-, -, tree, -, rfl⟩ := place_ok placed
  have field : Table.get? (adopt { s with tree := tree } path t).fields path = some t := by
    rw [adopt_fields, Table.get?_insert_self]
  have here : Table.contains (adopt { s with tree := tree } path t).fields path = true :=
    (Table.contains_iff_get? _ _).2 ⟨t, field⟩
  have noField : ∀ other, Path.isBelow path other = true ∨ Path.isBelow other path = true →
      Table.get? (adopt { s with tree := tree } path t).fields other = none := by
    intro other line
    rw [Table.get?_eq_none_iff, Bool.eq_false_iff]
    intro there
    rcases line with below | above
    · rw [tidy.coherent.not_below (.inl here) (.inl there)] at below
      cases below
    · rw [tidy.coherent.not_below (.inl there) (.inl here)] at above
      cases above
  constructor
  case field => exact field
  case no_field => exact noField
  case no_group =>
    exact fun name => tidy.coherent.not_group_of_below tidy.filled here (Path.isBelow_below path name)
  case no_virtual =>
    intro name
    rw [Bool.eq_false_iff]
    intro there
    have apart := tidy.coherent.not_below (.inl here) (.inr there)
    rw [Path.isBelow_below] at apart
    cases apart
  case fields_below => exact get?_adopt_embeddedFields replaces
  case groups_below => exact mem_adopt_embeddedGroups replaces
  case nothing_above =>
    intro other above
    apply Table.get?_eq_none_of_not_mem
    intro known
    -- it would lie below a field, which would lie above the path then
    obtain ⟨p, hp, hb⟩ := tidy.embedded other (.inl known)
    have none := noField p (.inr (Path.isBelow_trans hb above))
    rw [Table.get?_eq_none_iff, (Table.contains_iff_mem_keys _ _).2 hp] at none
    cases none
  case forgotten =>
    unfold adopt
    split <;> rfl

/-! ### The only declaration -/

/-- A field that is declared in a tidy schema can be declared alone, and paths below it are
classified alike then. -/
theorem Tidy.classify_below (h : Tidy s) {d : Definition δ}
    (declared : s.declare path d = (s', .ok t)) (replaces : t.Embeds ∨ ClearBelow s path) :
    ∃ bare alone : Schema δ, compile s.options.bare (.object []) = .ok bare ∧
      bare.declare path d = (alone, .ok t) ∧ ∀ name,
        (s'.classify (Path.below path name)).2 = (alone.classify (Path.below path name)).2 := by
  obtain ⟨bare, compiled, done⟩ := compile_nothing (δ := δ) (o := s.options.bare) rfl rfl rfl
  have tidyBare := Tidy.of_compile compiled
  obtain ⟨_, placed, typed, -⟩ := declare_eq_ok declared
  obtain ⟨bound, placedFirst⟩ := done.place_first (place_ok placed).1 d
  have inherited : bare.options.forChild = s.options.forChild := by
    rw [done.options]
    rfl
  have first : bare.declare path d = (bound.adopt path t, .ok t) := by
    rw [Schema.declare, declareAs, placedFirst, Definition.typeAt_congr_options inherited, typed]
  have clear := ClearBelow.of_done done tidyBare.embedded path
  have alone := tidyBare.standsAlone first (.inr clear)
  exact ⟨bare, _, compiled, first, alone.classify_congr (h.standsAlone declared replaces)⟩

/-- After calls that all succeeded, a field that embeds a schema takes the place of all that was
known below its path, and so does any field below whose path nothing is known of embedded schemas:
the paths below it are classified as if it were the only declaration. -/
theorem classify_redeclared {o : Options} {d₀ d : Definition δ} {s₀ : Schema δ}
    {calls : List (Call δ)} (compiled : compile o d₀ = .ok s₀) (ok : Call.AllSucceed s₀ calls)
    (declared : (Call.runAll s₀ calls).declare path d = (s', .ok t))
    (replaces : t.Embeds ∨ ClearBelow (Call.runAll s₀ calls) path) :
    ∃ bare alone : Schema δ,
      compile (Call.runAll s₀ calls).options.bare (.object []) = .ok bare ∧
        bare.declare path d = (alone, .ok t) ∧ ∀ name,
          (s'.classify (Path.below path name)).2 = (alone.classify (Path.below path name)).2 :=
  ((Tidy.of_compile compiled).runAll ok).classify_below declared replaces

/-- A city and a street, either of which may be embedded as a home. -/
def cityDefinition : Definition MemoryDocument := .object [("name", .literal (.str "String"))]

def streetDefinition : Definition MemoryDocument := .object [("number", .literal (.str "Number"))]

def settle (city : Schema MemoryDocument) : List (Call MemoryDocument) :=
  [.declare "home" (.schema city)]

def declares (s : Schema MemoryDocument) (path : String) (d : Definition MemoryDocument) : Bool :=
  (s.declare path d).2.toOption.isSome

theorem exists_of_declares {s : Schema MemoryDocument} {d : Definition MemoryDocument}
    (h : declares s path d = true) : ∃ t, s.declare path d = ((s.declare path d).1, .ok t) := by
  obtain ⟨t, ht, -⟩ := exists_ok_of_any (p := fun _ => true) (Option.any_true.trans h)
  exact ⟨t, Prod.ext rfl ht⟩

theorem settle_succeeds {s city : Schema MemoryDocument}
    (h : declares s "home" (.schema city) = true) : Call.AllSucceed s (settle city) := by
  obtain ⟨t, ht⟩ := exists_of_declares h
  refine ⟨?_, trivial⟩
  show (Call.forget (s.declare "home" (.schema city))).2 = .ok ()
  rw [ht]
  rfl

/-- Someone moves from a city to a street, and the name of the city is classified as if the street
had been the only home. -/
theorem classify_redeclared_home : ∃ city street person s' : Schema MemoryDocument, ∃ t,
    compile {} cityDefinition = .ok city ∧ compile {} streetDefinition = .ok street ∧
      compile {} (.object []) = .ok person ∧
        (Call.runAll person (settle city)).declare "home" (.schema street) = (s', .ok t) ∧
          ∃ bare alone : Schema MemoryDocument,
            compile (Call.runAll person (settle city)).options.bare (.object []) = .ok bare ∧
              bare.declare "home" (.schema street) = (alone, .ok t) ∧
                (s'.classify "home.name").2 = (alone.classify "home.name").2 := by
  have h : ((compile {} cityDefinition).toOption.any fun city =>
      (compile {} streetDefinition).toOption.any fun street =>
        (compile {} (.object [])).toOption.any fun person =>
          declares person "home" (.schema city) &&
            declares (Call.runAll person (settle city)) "home" (.schema street) &&
            ((Call.runAll person (settle city)).declare "home" (.schema street)).2.toOption.any
              fun t => decide (t.kind.name = "embedded-document")) = true := by
    decide +kernel
  obtain ⟨city, hcity, h⟩ := exists_ok_of_any h
  obtain ⟨street, hstreet, h⟩ := exists_ok_of_any h
  obtain ⟨person, hperson, h⟩ := exists_ok_of_any h
  simp only [Bool.and_eq_true] at h
  obtain ⟨⟨settled, moves⟩, embedded⟩ := h
  obtain ⟨t, moved⟩ := exists_of_declares moves
  rw [moved] at embedded
  have embeds := FieldType.embeds_of_name (of_decide_eq_true embedded)
  obtain ⟨bare, alone, compiled, first, same⟩ :=
    classify_redeclared hperson (settle_succeeds settled) moved (.inl embeds)
  exact ⟨city, street, person, _, t, hcity, hstreet, hperson, moved, bare, alone, compiled, first,
    same "name"⟩

/-- Whoever moves from a city to a place that is but a text leaves the name of the city behind: it
is still a field, which it is not where the text is the only declaration. -/
theorem left_behind : ∃ city person s' bare alone : Schema MemoryDocument, ∃ t t',
    compile {} cityDefinition = .ok city ∧ compile {} (.object []) = .ok person ∧
      Call.AllSucceed person (settle city) ∧
        (Call.runAll person (settle city)).declare "home" (.literal (.str "String")) =
          (s', .ok t) ∧
        compile (Call.runAll person (settle city)).options.bare (.object []) = .ok bare ∧
          bare.declare "home" (.literal (.str "String")) = (alone, .ok t') ∧
            (s'.classify (Path.below "home" "name")).2 = .real ∧
              (alone.classify (Path.below "home" "name")).2 = .adhocOrUndefined := by
  have h : ((compile {} cityDefinition).toOption.any fun city =>
      (compile {} (.object [])).toOption.any fun person : Schema MemoryDocument =>
        let settled := Call.runAll person (settle city)
        (compile settled.options.bare (.object [])).toOption.any fun bare =>
          declares person "home" (.schema city) &&
          declares settled "home" (.literal (.str "String")) &&
          declares bare "home" (.literal (.str "String")) &&
          decide (((settled.declare "home" (.literal (.str "String"))).1.classify
            (Path.below "home" "name")).2 = .real) &&
          decide (((bare.declare "home" (.literal (.str "String"))).1.classify
            (Path.below "home" "name")).2 = .adhocOrUndefined)) = true := by
    decide +kernel
  obtain ⟨city, hcity, h⟩ := exists_ok_of_any h
  obtain ⟨person, hperson, h⟩ := exists_ok_of_any h
  obtain ⟨bare, hbare, h⟩ := exists_ok_of_any h
  simp only [Bool.and_eq_true, decide_eq_true_eq] at h
  obtain ⟨⟨⟨⟨settled, moves⟩, begins⟩, stays⟩, unknown⟩ := h
  obtain ⟨t, moved⟩ := exists_of_declares moves
  obtain ⟨t', first⟩ := exists_of_declares begins
  exact ⟨city, person, _, bare, _, t, t', hcity, hperson, settle_succeeds settled, moved, hbare,
    first, stays, unknown⟩

end Schema

end DocSchema
