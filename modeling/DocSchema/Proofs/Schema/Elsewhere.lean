import DocSchema.Proofs.Schema.Commuting
import DocSchema.Proofs.Schema.Outside

/-!
# What a declaration leaves alone

A field that is declared is stored under its path, what it embeds becomes known below that path, and
what is remembered is forgotten. All of this is kept apart from every name that lies elsewhere,
neither at the path nor below it (`KeptElsewhere`): a search through positions starts at a name
above the one that is searched for, so it never comes across the path. Hence such names are
classified as before (`leavesAlone_declare`).
-/

namespace DocSchema.Schema

variable {δ : Type} {s s' : Schema δ} {path m a : String}

/-! ### Names that lie elsewhere -/

/-- Whether a name lies neither at a path nor below it. -/
structure Elsewhere (path m : String) : Prop where
  ne : m ≠ path
  not_below : Path.isBelow path m = false

/-- What lies above a name that lies elsewhere lies elsewhere too. -/
theorem Elsewhere.above (h : Elsewhere path m) (above : Path.isBelow a m = true) :
    Elsewhere path a where
  ne := by
    rintro rfl
    rw [h.not_below] at above
    cases above
  not_below := by
    rw [Bool.eq_false_iff]
    intro below
    have clear := h.not_below
    rw [Path.isBelow_trans below above] at clear
    cases clear

/-- Whether two schemas have the same groups and virtuals, and elsewhere the same names. -/
structure KeptElsewhere (path : String) (s s' : Schema δ) : Prop where
  groups : s'.groups = s.groups
  virtuals : s'.virtuals = s.virtuals
  fields : ∀ m, m ≠ path → Table.get? s'.fields m = Table.get? s.fields m
  embeddedFields : ∀ m, Path.isBelow path m = false →
    Table.get? s'.embeddedFields m = Table.get? s.embeddedFields m
  embeddedGroups : ∀ m, Path.isBelow path m = false →
    (m ∈ s'.embeddedGroups ↔ m ∈ s.embeddedGroups)

namespace KeptElsewhere

theorem declared?_eq (h : KeptElsewhere path s s') (elsewhere : Elsewhere path m) :
    s'.declared? m = s.declared? m := by
  rw [declared?, declared?, h.fields m elsewhere.ne, h.embeddedFields m elsewhere.not_below]

theorem hasGroup_eq (h : KeptElsewhere path s s') (elsewhere : Elsewhere path m) :
    s'.hasGroup m = s.hasGroup m := by
  rw [Bool.eq_iff_iff, hasGroup_iff, hasGroup_iff, KnowsGroup, KnowsGroup, h.groups,
    h.embeddedGroups m elsewhere.not_below]

/-- A search starts at a name above, and this one lies elsewhere too. -/
theorem locate_eq (h : KeptElsewhere path s s') (before : AllRemembered s)
    (after : AllRemembered s') (elsewhere : Elsewhere path m)
    (positional : Path.isPositional m = true) : s'.locate m = s.locate m := by
  obtain ⟨head, rest, steps, above⟩ := Path.steps_of_isPositional positional
  have plain : Path.isPositional head = false :=
    Path.isPositional_of_mem_steps (steps ▸ List.mem_cons_self)
  -- nothing is remembered of a name without positions
  have start : s'.direct? head = s.direct? head := by
    rw [after.direct?_of_not_positional plain, before.direct?_of_not_positional plain,
      h.declared?_eq (elsewhere.above above)]
  unfold locate
  rw [steps]
  show follow (s'.direct? head) false _ = follow (s.direct? head) false _
  rw [start]

theorem contains_fields (h : KeptElsewhere path s s') (elsewhere : Elsewhere path m) :
    Table.contains s'.fields m = Table.contains s.fields m := by
  rw [Bool.eq_iff_iff, Table.contains_iff_get?, Table.contains_iff_get?, h.fields m elsewhere.ne]

/-- Names that lie elsewhere are classified alike. -/
theorem classify_eq (h : KeptElsewhere path s s') (before : AllRemembered s)
    (after : AllRemembered s') (elsewhere : Elsewhere path m) :
    (s'.classify m).2 = (s.classify m).2 := by
  rw [before.classify_snd, after.classify_snd, h.contains_fields elsewhere, h.virtuals,
    h.hasGroup_eq elsewhere, h.declared?_eq elsewhere]
  cases positional : Path.isPositional m with
  | true => rw [h.locate_eq before after elsewhere positional]
  | false => rfl

end KeptElsewhere

/-- Binding a path in the tree and storing a field there keeps what lies elsewhere. -/
theorem keptElsewhere_adopt {bound : Schema δ} {d : Definition δ}
    (placed : s.place path d = .ok bound) (t : FieldType δ) :
    KeptElsewhere path s (bound.adopt path t) := by
  obtain ⟨-, -, tree, -, rfl⟩ := place_ok placed
  constructor
  case groups => exact adopt_groups _ path t
  case virtuals => exact adopt_virtuals _ path t
  case fields => exact fun m other => get?_adoptKnown_of_ne _ (.ok t) other
  case embeddedFields =>
    exact fun m apart => (local_embeddedFields path (.ok t)).outside _ m (by simp [apart])
  case embeddedGroups =>
    exact fun m apart => iff_of_eq ((local_embeddedGroups path (.ok t)).outside _ m (by simp [apart]))

/-! ### After any calls -/

/-- What a declaration leaves alone: the class of every name elsewhere, the groups and the virtuals,
the other fields, and the order of all. -/
structure LeavesAlone (path : String) (s s' : Schema δ) : Prop where
  classify : ∀ m, m ≠ path → Path.isBelow path m = false →
    (s'.classify m).2 = (s.classify m).2
  groups : s'.groups = s.groups
  virtuals : s'.virtuals = s.virtuals
  fields : ∀ m, m ≠ path → Table.get? s'.fields m = Table.get? s.fields m
  order : Table.keys s'.fields =
    if Table.contains s.fields path then Table.keys s.fields else Table.keys s.fields ++ [path]

variable [Document δ]

theorem leavesAlone_of_declare (remembered : AllRemembered s) {d : Definition δ} {t : FieldType δ}
    (declared : s.declare path d = (s', .ok t)) : LeavesAlone path s s' := by
  obtain ⟨bound, placed, -, rfl⟩ := declare_eq_ok declared
  have kept : KeptElsewhere path s (bound.adopt path t) := keptElsewhere_adopt placed t
  have after : AllRemembered (bound.adopt path t) := by
    intro other found known
    rw [adopt_located] at known
    cases known
  obtain ⟨-, -, tree, -, rfl⟩ := place_ok placed
  constructor
  case classify => exact fun m ne below => kept.classify_eq remembered after ⟨ne, below⟩
  case groups => exact kept.groups
  case virtuals => exact kept.virtuals
  case fields => exact kept.fields
  case order =>
    rw [adopt_fields]
    cases known : Table.contains s.fields path with
    | true => exact Table.keys_insert_of_contains s.fields t known
    | false => exact Table.keys_insert_of_not_contains s.fields t known

/-- Whatever calls are made on a compiled schema, in whatever order and whether they fail or not, a
field that is then declared leaves alone what lies neither at its path nor below it. -/
theorem leavesAlone_declare {o : Options} {d₀ d : Definition δ} {s₀ : Schema δ}
    {calls : List (Call δ)} {t : FieldType δ} (compiled : compile o d₀ = .ok s₀)
    (declared : (Call.runAll s₀ calls).declare path d = (s', .ok t)) :
    LeavesAlone path (Call.runAll s₀ calls) s' :=
  leavesAlone_of_declare (InOrder.runAll compiled calls).remembered declared

/-- Calls that embed a city, ask for a friend, and fail half way. -/
def movingCalls (city : Schema MemoryDocument) : List (Call MemoryDocument) :=
  [.declare "home" (.schema city), .classify "friends.0.name",
    .add (.object [("pets", .object [("name", .literal .null)])]) ""]

/-- A person with friends moves from a city to a street. -/
theorem leavesAlone_declare_home : ∃ city street person s' : Schema MemoryDocument, ∃ t,
    compile {} cityDefinition = .ok city ∧ compile {} streetDefinition = .ok street ∧
      compile {} personDefinition = .ok person ∧
        (Call.runAll person (movingCalls city)).declare "home" (.schema street) = (s', .ok t) ∧
          LeavesAlone "home" (Call.runAll person (movingCalls city)) s' := by
  have h : ((compile {} cityDefinition).toOption.any fun city =>
      (compile {} streetDefinition).toOption.any fun street =>
        (compile {} personDefinition).toOption.any fun person =>
          declares (Call.runAll person (movingCalls city)) "home" (.schema street)) = true := by
    decide +kernel
  obtain ⟨city, hcity, h⟩ := exists_ok_of_any h
  obtain ⟨street, hstreet, h⟩ := exists_ok_of_any h
  obtain ⟨person, hperson, h⟩ := exists_ok_of_any h
  obtain ⟨t, declared⟩ := exists_of_declares h
  exact ⟨city, street, person, _, t, hcity, hstreet, hperson, declared,
    leavesAlone_declare hperson declared⟩

end DocSchema.Schema
