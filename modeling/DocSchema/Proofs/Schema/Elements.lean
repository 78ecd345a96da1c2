import DocSchema.Proofs.Outcomes
import DocSchema.Proofs.Schema.Lookups

/-!
# Looking up below an array of documents

A position below an array of documents leads to one of them, so a path that goes on after it is
looked up in the schema of these documents. It stands for the field that its rest stands for in that
schema (`lookup_element`), whatever positions and embedded schemas the rest leads through.

Groups are another matter. Following a path through positions, only the groups that the schema of
the documents declares itself are known, while that schema by itself also knows those of the schemas
embedded in it. So a group is found below a position as long as it does not lie inside an embedded
schema (`classify_element`), and is lost where it does (`lost_group`).
-/

namespace DocSchema

variable {δ : Type}

theorem Lookup.ofLocated_eq_field {found : Located δ} {t : FieldType δ} :
    Lookup.ofLocated found = .field t ↔ found = .field t := by
  cases found <;> simp [Lookup.ofLocated]

namespace Schema

variable {s child : Schema δ} {path name i : String} {t : FieldType δ}

/-! ### Plain names -/

/-- The names that a schema knows: those of its fields, groups and virtuals, and those of the fields
and groups of the schemas embedded in it. -/
def names (s : Schema δ) : List String :=
  Table.keys s.fields ++ s.groups ++ Table.keys s.virtuals ++ Table.keys s.embeddedFields ++
    s.embeddedGroups

/-- Whether no name that a schema knows has a position in it. -/
def PlainNames (s : Schema δ) : Prop := ∀ n ∈ s.names, Path.isPlain n = true

namespace PlainNames

/-- A path with positions is no known name. -/
theorem not_mem (plain : PlainNames s) (hp : Path.isPositional path = true) : path ∉ s.names := by
  intro known
  have free := Path.not_isPositional_of_isPlain (plain path known)
  rw [hp] at free
  cases free

theorem declared?_eq_none (plain : PlainNames s) (hp : Path.isPositional path = true) :
    s.declared? path = none := by
  apply Schema.declared?_eq_none
  intro known
  apply plain.not_mem hp
  rcases known with known | known <;> simp [names, known]

theorem not_hasGroup (plain : PlainNames s) (hp : Path.isPositional path = true) :
    s.hasGroup path = false := by
  rw [Bool.eq_false_iff]
  intro known
  apply plain.not_mem hp
  rcases hasGroup_iff.1 known with known | known <;> simp [names, known]

theorem not_virtual (plain : PlainNames s) (hp : Path.isPositional path = true) :
    Table.contains s.virtuals path = false := by
  rw [Bool.eq_false_iff]
  intro known
  apply plain.not_mem hp
  simp [names, (Table.contains_iff_mem_keys _ _).1 known]

/-- A path with positions stands for what is found by following it. -/
theorem meaning_eq (plain : PlainNames s) (hp : Path.isPositional path = true) :
    s.meaning path = s.traceFrom path := by
  rw [meaning, plain.declared?_eq_none hp, plain.not_hasGroup hp, hp]
  rfl

end PlainNames

/-! ### What a path below a position stands for -/

/-- A group does not matter where a position follows. -/
theorem trace_position (current : Option (FieldType δ)) (isGroup : Bool) (rest : List Path.Step) :
    trace current isGroup (.position :: rest) = trace current false (.position :: rest) := by
  cases rest with
  | nil => rfl
  | cons step rest => rw [trace, trace] <;> simp

theorem trace_element {head : String} {rest : List Path.Step} (holds : t.schema? = some child) :
    trace (some t) false (.position :: .field head :: rest) =
      trace (child.declared? head) (child.groups.contains head) rest := by
  rw [trace, trace]
  · rw [Option.bind_some, holds]
  · simp

/-- Whatever the rest of a path below a position is, it is followed from its first name on, in the
schema of the documents. -/
theorem meaning_element (plain : PlainNames s) (field : Table.get? s.fields path = some t)
    (holds : t.schema? = some child) (position : Path.isPosition i = true)
    (start : (Path.segments name).head?.any Path.isPosition = false) {head : String}
    {rest : List Path.Step} (steps : Path.steps name = .field head :: rest) :
    s.meaning (Path.below path (Path.below i name)) =
      trace (child.declared? head) (child.groups.contains head) rest := by
  have known : path ∈ s.names := by
    have hm := Table.mem_keys.2 ⟨t, Table.mem_of_get? field⟩
    simp [names, hm]
  have plainPath := Path.not_isPositional_of_isPlain (plain path known)
  have declared : s.declared? path = some t := by rw [declared?, field, Option.some_or]
  rw [plain.meaning_eq (Path.isPositional_element position), traceFrom,
    Path.steps_element plainPath position start, steps]
  show trace (s.declared? path) false _ = _
  rw [declared, trace_element holds]

/-- A name without positions is looked up among the declared names of the schema of the documents,
where the groups are its own ones. -/
theorem meaning_element_name (plain : PlainNames s) (field : Table.get? s.fields path = some t)
    (holds : t.schema? = some child) (position : Path.isPosition i = true)
    (plainName : Path.isPlain name = true) :
    s.meaning (Path.below path (Path.below i name)) =
      trace (child.declared? name) (child.groups.contains name) [] := by
  have start := Path.head_of_isPlain plainName
  have single := Path.steps_of_not_isPositional (Path.not_isPositional_of_isPlain plainName)
  exact meaning_element plain field holds position start single

/-- A field stands below a position where it stands in the schema of the documents. -/
theorem meaning_element_field (plain : PlainNames s) (inside : PlainNames child)
    (field : Table.get? s.fields path = some t) (holds : t.schema? = some child)
    (position : Path.isPosition i = true)
    (start : (Path.segments name).head?.any Path.isPosition = false) (t' : FieldType δ) :
    s.meaning (Path.below path (Path.below i name)) = .field t' ↔ child.meaning name = .field t' := by
  cases hp : Path.isPositional name with
  | true =>
    obtain ⟨head, rest, steps, -⟩ := Path.steps_of_isPositional hp
    rw [meaning_element plain field holds position start steps, inside.meaning_eq hp, traceFrom,
      steps, trace_position]
  | false =>
    have single := Path.steps_of_not_isPositional hp
    rw [meaning_element plain field holds position start single, meaning, hp]
    cases child.declared? name with
    | some t'' => rfl
    | none =>
      -- neither side finds a field, whatever groups there are
      rw [trace]
      constructor
      · intro h
        split at h <;> cases h
      · intro h
        simp only [Bool.false_eq_true, if_false] at h
        split at h <;> cases h

theorem schema?_of_documents (kind : t.kind = .documents child) : t.schema? = some child := by
  rw [FieldType.schema?, kind]

variable [Document δ] {allowed : Schema δ → Call δ → Prop}

/-- Where no name has a position, a look-up finds what the path stands for by declared names. -/
theorem Reached.lookup_snd_of_plain (hs : Reached allowed s) (plain : PlainNames s)
    (path : String) : (s.lookup path).2 = .ofLocated (s.meaning path) := by
  apply hs.lookup_snd
  intro group
  cases hp : Path.isPositional path with
  | true =>
    rw [plain.not_hasGroup hp] at group
    cases group
  | false => exact hs.allRemembered.direct?_of_not_positional hp

theorem Reached.of_schema? (hs : Reached allowed s) (field : Table.get? s.fields path = some t)
    (holds : t.schema? = some child) : Reached allowed child :=
  hs.inside (path, t) (List.mem_append_left _ (Table.mem_of_get? field)) child
    (FieldType.mem_schemas_of_schema? holds)

/-! ### Fields -/

/-- Below a position in an array of documents, a look-up finds the field that it finds in the schema
of the documents, whatever calls were made on either. -/
theorem lookup_element (hs : Reachable s) (plain : PlainNames s) (inside : PlainNames child)
    (field : Table.get? s.fields path = some t) (kind : t.kind = .documents child)
    (position : Path.isPosition i = true)
    (start : (Path.segments name).head?.any Path.isPosition = false) (t' : FieldType δ) :
    (s.lookup (Path.below path (Path.below i name))).2 = .field t' ↔
      (child.lookup name).2 = .field t' := by
  have holds := schema?_of_documents kind
  have reached := Reached.of_schema? hs field holds
  rw [hs.lookup_snd_of_plain plain, reached.lookup_snd_of_plain inside]
  rw [Lookup.ofLocated_eq_field, Lookup.ofLocated_eq_field]
  exact meaning_element_field plain inside field holds position start t'

def staffDefinition : Definition MemoryDocument :=
  .object [("director", .object [("name", .literal (.str "String"))])]

/-- A museum with its rooms and its address, which embeds its staff. -/
def museumDefinition (staff : Schema MemoryDocument) : Definition MemoryDocument :=
  .object [("staff", .schema staff),
    ("rooms", .array [.object [("size", .literal (.str "Number"))]]),
    ("address", .object [("street", .literal (.str "String"))])]

def tourDefinition (museum : Schema MemoryDocument) : Definition MemoryDocument :=
  .object [("stops", .array [.schema museum])]

def findsField (s : Schema MemoryDocument) (path : String) : Bool :=
  match (s.lookup path).2 with
  | .field _ => true
  | _ => false

theorem exists_of_findsField {s : Schema MemoryDocument} (h : findsField s path = true) :
    ∃ t, (s.lookup path).2 = .field t := by
  unfold findsField at h
  split at h
  · next t ht => exact ⟨t, ht⟩
  · cases h

/-- Whether a schema has plain names and finds the names of a museum. -/
def isMuseum (s : Schema MemoryDocument) : Bool :=
  s.names.all Path.isPlain && findsField s "rooms.$.size" && findsField s "staff.director.name" &&
    decide ((s.classify "staff.director").2 = .nested) &&
    decide ((s.classify "address").2 = .nested) &&
    (Table.keys s.fields).all fun p => !Path.isBelow p "address"

theorem exists_of_documents {t : FieldType MemoryDocument} {p : Schema MemoryDocument → Bool}
    (h : (decide (t.kind.name = "document-array") && t.schema?.any p) = true) :
    ∃ c, t.kind = .documents c ∧ p c = true := by
  obtain ⟨isArray, found⟩ := Bool.and_eq_true_iff.1 h
  rw [FieldType.schema?] at found
  cases kind : t.kind with
  | documents c =>
    rw [kind] at found
    exact ⟨c, rfl, found⟩
  | embedded c => rw [kind] at isArray; cases isArray
  | scalar s => rw [kind] at found; cases found
  | mixed => rw [kind] at found; cases found
  | array e => rw [kind] at found; cases found

/-- A tour stops at documents of a museum. -/
theorem exists_tour : ∃ staff museum tour stop : Schema MemoryDocument, ∃ t,
    compile {} staffDefinition = .ok staff ∧ compile {} (museumDefinition staff) = .ok museum ∧
      compile {} (tourDefinition museum) = .ok tour ∧ Built tour ∧ PlainNames tour ∧
        Table.get? tour.fields "stops" = some t ∧ t.kind = .documents stop ∧
          isMuseum stop = true ∧
            (tour.classify "stops.0.staff.director").2 = .adhocOrUndefined := by
  have h : ((compile {} staffDefinition).toOption.any fun staff =>
      (compile {} (museumDefinition staff)).toOption.any fun museum =>
        (compile {} (tourDefinition museum)).toOption.any fun tour =>
          tour.names.all Path.isPlain &&
            decide ((tour.classify "stops.0.staff.director").2 = .adhocOrUndefined) &&
            (Table.get? tour.fields "stops").any fun t =>
              decide (t.kind.name = "document-array") && t.schema?.any isMuseum) = true := by
    decide +kernel
  obtain ⟨staff, hstaff, h⟩ := exists_ok_of_any h
  obtain ⟨museum, hmuseum, h⟩ := exists_ok_of_any h
  obtain ⟨tour, htour, h⟩ := exists_ok_of_any h
  simp only [Bool.and_eq_true, decide_eq_true_eq] at h
  obtain ⟨⟨plain, lost⟩, found⟩ := h
  obtain ⟨t, field, found⟩ := (Option.any_eq_true _ _).1 found
  obtain ⟨stop, kind, isMuseum⟩ := exists_of_documents found
  have builtStaff : Built staff := by
    apply Reached.compile _ hstaff
    simp [staffDefinition, Definition.schemas, Definition.fieldSchemas]
  have builtMuseum : Built museum := by
    apply Reached.compile _ hmuseum
    simpa [museumDefinition, Definition.schemas, Definition.fieldSchemas,
      Definition.itemSchemas] using builtStaff
  have builtTour : Built tour := by
    apply Reached.compile _ htour
    simpa [tourDefinition, Definition.schemas, Definition.fieldSchemas,
      Definition.itemSchemas] using builtMuseum
  exact ⟨staff, museum, tour, stop, t, hstaff, hmuseum, htour, builtTour,
    List.all_eq_true.1 plain, field, kind, isMuseum, lost⟩

/-- The rooms of a museum and the director of its staff are found below the stops of a tour, through
positions and an embedded schema. -/
theorem lookup_element_tour : ∃ staff museum tour : Schema MemoryDocument,
    compile {} staffDefinition = .ok staff ∧ compile {} (museumDefinition staff) = .ok museum ∧
      compile {} (tourDefinition museum) = .ok tour ∧
        (∃ t, (tour.lookup "stops.0.rooms.$.size").2 = .field t) ∧
          ∃ t, (tour.lookup "stops.$.staff.director.name").2 = .field t := by
  obtain ⟨staff, museum, tour, stop, t, hstaff, hmuseum, htour, built, plain, field, kind,
    isMuseum, -⟩ := exists_tour
  simp only [Schema.isMuseum, Bool.and_eq_true] at isMuseum
  obtain ⟨⟨⟨⟨⟨inside, size⟩, director⟩, -⟩, -⟩, -⟩ := isMuseum
  obtain ⟨size, hsize⟩ := exists_of_findsField size
  obtain ⟨director, hdirector⟩ := exists_of_findsField director
  have inside := List.all_eq_true.1 inside
  have first : Path.isPosition "0" = true := by decide
  have any : Path.isPosition "$" = true := by decide
  have room : (Path.segments "rooms.$.size").head?.any Path.isPosition = false := by decide
  have person : (Path.segments "staff.director.name").head?.any Path.isPosition = false := by decide
  have sizes := lookup_element built.reachable plain inside field kind first room size
  have names := lookup_element built.reachable plain inside field kind any person director
  exact ⟨staff, museum, tour, hstaff, hmuseum, htour, ⟨size, sizes.2 hsize⟩,
    ⟨director, names.2 hdirector⟩⟩

/-! ### Groups -/

/-- A path is classified as a group where it stands for one. -/
theorem Built.classify_eq_nested (hs : Built s) (path : String) :
    (s.classify path).2 = .nested ↔ s.meaning path = .group := by
  rw [hs.classify_snd]
  cases hv : Table.contains s.virtuals path with
  | true =>
    rw [hs.meaning_of_virtual hv]
    simp
  | false => cases s.meaning path <;> simp [Located.pathClass]

omit [Document δ] in
theorem Orderly.meaning_eq_group (order : Orderly s) (hp : Path.isPositional path = false) :
    s.meaning path = .group ↔ s.KnowsGroup path := by
  rw [meaning, hp, ← hasGroup_iff]
  cases hd : s.declared? path with
  | some t =>
    have noGroup := order.not_knowsGroup (knowsField_of_declared? hd)
    rw [← hasGroup_iff] at noGroup
    simp [noGroup]
  | none => cases s.hasGroup path <;> simp

omit [Document δ] in
theorem Orderly.trace_eq_group (order : Orderly s) :
    trace (s.declared? name) (s.groups.contains name) [] = .group ↔ name ∈ s.groups := by
  cases hd : s.declared? name with
  | some t =>
    have noGroup := order.not_knowsGroup (knowsField_of_declared? hd)
    refine iff_of_false ?_ fun hg => noGroup (.inl hg)
    rw [trace]
    simp
  | none =>
    rw [trace]
    simp

/-- Where all calls succeed, below a position in an array of documents a path is classified as a
group where the schema of the documents classifies its rest as one, unless the group lies inside a
schema that is embedded there. -/
theorem classify_element (hs : Built s) (plain : PlainNames s)
    (field : Table.get? s.fields path = some t) (kind : t.kind = .documents child)
    (position : Path.isPosition i = true) (plainName : Path.isPlain name = true) :
    (s.classify (Path.below path (Path.below i name))).2 = .nested ↔
      (child.classify name).2 = .nested ∧
        ∀ p ∈ Table.keys child.fields, Path.isBelow p name = false := by
  have holds := schema?_of_documents kind
  have built : Built child := Reached.of_schema? hs field holds
  have order := built.orderly
  have below := meaning_element_name plain field holds position plainName
  calc (s.classify (Path.below path (Path.below i name))).2 = .nested
      ↔ s.meaning (Path.below path (Path.below i name)) = .group := hs.classify_eq_nested _
    _ ↔ name ∈ child.groups := by rw [below, order.trace_eq_group]
    _ ↔ child.KnowsGroup name ∧ ∀ p ∈ Table.keys child.fields, Path.isBelow p name = false :=
        order.mem_groups_iff
    _ ↔ _ := by
        rw [built.classify_eq_nested,
          order.meaning_eq_group (Path.not_isPositional_of_isPlain plainName)]

/-- The address of a museum is a group below the stops of a tour as well. -/
theorem classify_element_tour : ∃ staff museum tour : Schema MemoryDocument,
    compile {} staffDefinition = .ok staff ∧ compile {} (museumDefinition staff) = .ok museum ∧
      compile {} (tourDefinition museum) = .ok tour ∧
        (tour.classify "stops.0.address").2 = .nested := by
  obtain ⟨staff, museum, tour, stop, t, hstaff, hmuseum, htour, built, plain, field, kind,
    isMuseum, -⟩ := exists_tour
  simp only [Schema.isMuseum, Bool.and_eq_true, decide_eq_true_eq] at isMuseum
  obtain ⟨⟨-, nested⟩, outside⟩ := isMuseum
  have first : Path.isPosition "0" = true := by decide
  have address : Path.isPlain "address" = true := by decide
  have group := classify_element built plain field kind first address
  refine ⟨staff, museum, tour, hstaff, hmuseum, htour, group.2 ⟨nested, ?_⟩⟩
  intro p hp
  simpa using List.all_eq_true.1 outside p hp

/-- The group of the director lies inside the schema that a museum embeds, and is lost below the
stops of a tour. -/
theorem lost_group : ∃ staff museum tour stop : Schema MemoryDocument, ∃ t,
    compile {} staffDefinition = .ok staff ∧ compile {} (museumDefinition staff) = .ok museum ∧
      compile {} (tourDefinition museum) = .ok tour ∧ Built tour ∧ PlainNames tour ∧
        Table.get? tour.fields "stops" = some t ∧ t.kind = .documents stop ∧
          (stop.classify "staff.director").2 = .nested ∧
            (tour.classify "stops.0.staff.director").2 = .adhocOrUndefined := by
  obtain ⟨staff, museum, tour, stop, t, hstaff, hmuseum, htour, built, plain, field, kind,
    isMuseum, lost⟩ := exists_tour
  simp only [Schema.isMuseum, Bool.and_eq_true, decide_eq_true_eq] at isMuseum
  obtain ⟨⟨⟨-, nested⟩, -⟩, -⟩ := isMuseum
  exact ⟨staff, museum, tour, stop, t, hstaff, hmuseum, htour, built, plain, field, kind, nested,
    lost⟩

end Schema

end DocSchema
