import DocSchema.Document.Memory
import DocSchema.Proofs.Schema.Caches

/-!
# Paths outside of the fields

A path that lies inside no declared field (`Outside`) stands for what is declared here at most:
neither the schemas that are embedded nor positions in arrays have anything to say about it. So both
look-ups say what the fields, the groups and the virtuals say (`InOrder.lookup_snd`,
`InOrder.classify_snd`), whatever calls were made before.

Whether a path is under mixed values is asked by a walk over its ancestors, which knows the declared
fields alone. It finds the mixed fields that lie outside, and overlooks those inside embedded
schemas and arrays (`isUnderMixed_iff_lookup`).
-/

namespace DocSchema

variable {δ : Type}

namespace Schema

variable {s : Schema δ} {a path : String}

/-! ### Paths outside of the fields -/

/-- Whether a path lies inside no declared field. -/
def Outside (s : Schema δ) (path : String) : Prop :=
  ∀ p, Table.contains s.fields p = true → Path.isBelow p path = false

/-- What lies above a path that is outside is outside. -/
theorem Outside.above (h : Outside s path) (above : Path.isBelow a path = true) : Outside s a := by
  intro p field
  rw [Bool.eq_false_iff]
  intro inside
  have clear := h p field
  rw [Path.isBelow_trans inside above] at clear
  cases clear

/-- What a path stands for by the names that are declared here. -/
def ownMeaning (s : Schema δ) (path : String) : Located δ :=
  match Table.get? s.fields path with
  | some t => .field t
  | none => if s.groups.contains path then .group else .nowhere

/-- What holds of a schema after any calls, whether they fail or not. -/
structure InOrder (s : Schema δ) : Prop where
  coherent : Coherent s
  embedded : EmbeddedBelow s
  remembered : AllRemembered s

namespace InOrder

theorem runAll [Document δ] {o : Options} {d : Definition δ} {s₀ : Schema δ}
    (compiled : compile o d = .ok s₀) (calls : List (Call δ)) : InOrder (Call.runAll s₀ calls) := by
  have steps : Steps (fun _ => True) (Schema.empty o) (Call.runAll s₀ calls) :=
    Call.steps_compile_runAll compiled calls
  exact ⟨.steps steps (.empty o), steps.keep (fun _ _ st h => h.step st) (.empty o),
    steps.keep (fun _ _ st h => h.step st) (.empty o)⟩

/-- No field and no virtual lies inside a field. -/
theorem outside (h : InOrder s) (declared : s.Declares path) : Outside s path :=
  fun _ field => h.coherent.not_below (.inl field) declared

/-- What is known of embedded schemas lies inside the fields. -/
theorem not_outside_of_embedded (h : InOrder s)
    (known : path ∈ Table.keys s.embeddedFields ∨ path ∈ s.embeddedGroups) : ¬ Outside s path := by
  intro outside
  obtain ⟨p, field, inside⟩ := h.embedded path known
  rw [outside p ((Table.contains_iff_mem_keys _ _).2 field)] at inside
  cases inside

theorem declared?_of_outside (h : InOrder s) (outside : Outside s path) :
    s.declared? path = Table.get? s.fields path := by
  have unknown : Table.get? s.embeddedFields path = none :=
    Table.get?_eq_none_of_not_mem fun known => h.not_outside_of_embedded (.inl known) outside
  rw [declared?, unknown, Option.or_none]

theorem hasGroup_of_outside (h : InOrder s) (outside : Outside s path) :
    s.hasGroup path = s.groups.contains path := by
  have unknown : s.embeddedGroups.contains path = false := by
    rw [Bool.eq_false_iff]
    intro known
    exact h.not_outside_of_embedded (.inr (List.contains_iff_mem.1 known)) outside
  rw [hasGroup, unknown, Bool.or_false]

/-- A search through positions has no field to start from. -/
theorem locate_of_outside (h : InOrder s) (outside : Outside s path)
    (positional : Path.isPositional path = true) : s.locate path = .nowhere := by
  refine h.remembered.locate_eq_nowhere positional fun head known => ?_
  rw [Bool.eq_false_iff]
  intro above
  -- the search would start from a field above the path, declared here or in a schema inside a field
  rcases known with field | known
  · rw [outside head ((Table.contains_iff_mem_keys _ _).2 field)] at above
    cases above
  · exact h.not_outside_of_embedded (.inl known) (outside.above above)

/-- Whatever is remembered of a path outside, nothing was found. -/
theorem located_of_outside (h : InOrder s) (outside : Outside s path) {found : Located δ}
    (known : Table.get? s.located path = some found) : found = .nowhere := by
  obtain ⟨positional, located, -, -⟩ := h.remembered path found known
  rw [located, h.locate_of_outside outside positional]

/-- Only declared fields are found directly. -/
theorem direct?_of_outside (h : InOrder s) (outside : Outside s path) :
    s.direct? path = Table.get? s.fields path := by
  have declared := h.declared?_of_outside outside
  cases field : Table.get? s.fields path with
  | some t =>
    rw [field] at declared
    rw [h.remembered.direct?_of_knowsField (knowsField_of_declared? declared), declared]
  | none =>
    rw [field] at declared
    rw [direct?_of_unknown declared]
    -- what is remembered is no field
    cases known : Table.get? s.located path with
    | none => rfl
    | some found =>
      rw [h.located_of_outside outside known]
      rfl

theorem answer_of_outside (h : InOrder s) (outside : Outside s path) :
    answer s path = .ofLocated (s.ownMeaning path) := by
  have remembered : ((Table.get? s.located path).map Located.isGroup).getD false = false := by
    cases known : Table.get? s.located path with
    | none => rfl
    | some found =>
      rw [h.located_of_outside outside known]
      rfl
  rw [answer, h.direct?_of_outside outside, h.hasGroup_of_outside outside, remembered, ownMeaning]
  cases Table.get? s.fields path with
  | some t => rfl
  | none => cases s.groups.contains path <;> rfl

/-- A search that finds nothing leaves the schema in order. -/
theorem remember (h : InOrder s) (unknown : s.direct? path = none) (noGroup : s.hasGroup path = false)
    (positional : Path.isPositional path = true) : InOrder (s.remember path).1 := by
  have same := sameNames_remember s path
  exact ⟨h.coherent.congr same,
    h.embedded.congr same.fields same.embeddedFields same.embeddedGroups,
    h.remembered.rememberMore unknown noGroup positional⟩

/-- What `lookup` says of a path outside. -/
theorem lookup_snd (h : InOrder s) (outside : Outside s path) :
    (s.lookup path).2 = .ofLocated (s.ownMeaning path) := by
  rw [lookup_snd_eq]
  split
  · next search =>
    simp only [Bool.and_eq_true, Option.isNone_iff_eq_none, Bool.not_eq_true'] at search
    have same := sameNames_remember s path
    have outside' : Outside (s.remember path).1 path := by
      rw [Outside, same.fields]
      exact outside
    rw [(h.remember search.1.1 search.1.2 search.2).answer_of_outside outside', ownMeaning,
      ownMeaning, same.fields, same.groups]
  · exact h.answer_of_outside outside

/-- What `classify` says of a path outside. -/
theorem classify_snd (h : InOrder s) (outside : Outside s path) :
    (s.classify path).2 = if Table.contains s.virtuals path then .virtual
      else (s.ownMeaning path).pathClass := by
  rw [h.remembered.classify_snd, h.hasGroup_of_outside outside, h.declared?_of_outside outside,
    ownMeaning]
  cases field : Table.get? s.fields path with
  | some t =>
    have known : Table.contains s.fields path = true := (Table.contains_iff_get? _ _).2 ⟨t, field⟩
    rw [known, h.coherent.not_virtual known]
    rfl
  | none =>
    rw [(Table.get?_eq_none_iff _ _).1 field]
    cases Table.contains s.virtuals path with
    | true => rfl
    | false =>
      cases s.groups.contains path with
      | true => rfl
      | false =>
        -- a search would find nothing
        cases positional : Path.isPositional path with
        | true =>
          rw [h.locate_of_outside outside positional]
          rfl
        | false => rfl

end InOrder

/-! ### Mixed ancestors -/

/-- A path is under mixed values where a declared field that is mixed lies at it or above it. -/
theorem isUnderMixed_iff : s.isUnderMixed path = true ↔
    ∃ a t, (a = path ∨ Path.isBelow a path = true) ∧ Table.get? s.fields a = some t ∧
      t.isMixed = true := by
  have visited {a : String} : a ∈ Path.ancestors path ++ [path] ↔
      a = path ∨ Path.isBelow a path = true := by
    rw [List.mem_append, Path.mem_ancestors, List.mem_singleton, or_comm]
  rw [isUnderMixed, List.any_eq_true]
  constructor
  · rintro ⟨a, line, mixed⟩
    split at mixed
    · next t field => exact ⟨a, t, visited.1 line, field, mixed⟩
    · cases mixed
  · rintro ⟨a, t, line, field, mixed⟩
    exact ⟨a, visited.2 line, by rw [field]; exact mixed⟩

/-- The declared fields are what is found outside. -/
theorem InOrder.lookup_eq_field (h : InOrder s) {t : FieldType δ} :
    Table.get? s.fields path = some t ↔ (s.lookup path).2 = .field t ∧ Outside s path := by
  constructor
  · intro field
    have outside := h.outside (.inl ((Table.contains_iff_get? _ _).2 ⟨t, field⟩))
    rw [h.lookup_snd outside, ownMeaning, field]
    exact ⟨rfl, outside⟩
  · rintro ⟨found, outside⟩
    rw [h.lookup_snd outside, ownMeaning] at found
    cases field : Table.get? s.fields path with
    | some t' =>
      rw [field] at found
      cases found
      rfl
    | none =>
      rw [field] at found
      cases there : s.groups.contains path <;> rw [there] at found <;> cases found

variable [Document δ]

/-- Whatever calls are made on a compiled schema, a path is under mixed values exactly if `lookup`
finds a mixed field at it or at one of its ancestors, and this lies inside no other field: what is
mixed inside an embedded schema or an array is overlooked. -/
theorem isUnderMixed_iff_lookup {o : Options} {d : Definition δ} {s₀ : Schema δ}
    (compiled : compile o d = .ok s₀) (calls : List (Call δ)) (path : String) :
    (Call.runAll s₀ calls).isUnderMixed path = true ↔
      ∃ a t, (a = path ∨ Path.isBelow a path = true) ∧
        ((Call.runAll s₀ calls).lookup a).2 = .field t ∧ t.isMixed = true ∧
          Outside (Call.runAll s₀ calls) a := by
  have order : InOrder (Call.runAll s₀ calls) := .runAll compiled calls
  rw [isUnderMixed_iff]
  refine exists_congr fun a => exists_congr fun t => and_congr_right fun _ => ?_
  rw [order.lookup_eq_field, and_assoc, and_comm (a := Outside _ a)]

/-- A place with notes of any sort. -/
def notedPlace : Definition MemoryDocument := .object [("notes", .type .mixed)]

/-- Someone with a home and with rooms, all of which have notes, and with notes of their own. -/
def notedPerson (place : Schema MemoryDocument) : Definition MemoryDocument :=
  .object [("notes", .type .mixed), ("home", .schema place), ("rooms", .array [.schema place])]

theorem isUnderMixed_iff_lookup_notes : ∃ place person : Schema MemoryDocument,
    compile {} notedPlace = .ok place ∧ compile {} (notedPerson place) = .ok person ∧
      ((Call.runAll person [.lookup "rooms.0.notes"]).isUnderMixed "notes.today.morning" = true ↔
        ∃ a t, (a = "notes.today.morning" ∨ Path.isBelow a "notes.today.morning" = true) ∧
          ((Call.runAll person [.lookup "rooms.0.notes"]).lookup a).2 = .field t ∧
            t.isMixed = true ∧ Outside (Call.runAll person [.lookup "rooms.0.notes"]) a) := by
  have h : ((compile {} notedPlace).toOption.any fun place =>
      (compile {} (notedPerson place)).toOption.any fun _ => true) = true := by decide +kernel
  obtain ⟨place, hplace, h⟩ := exists_ok_of_any h
  obtain ⟨person, hperson, -⟩ := exists_ok_of_any h
  exact ⟨place, person, hplace, hperson,
    isUnderMixed_iff_lookup hperson [.lookup "rooms.0.notes"] "notes.today.morning"⟩

/-- Whether `lookup` finds a mixed field at a path. -/
def findsMixed (s : Schema MemoryDocument) (path : String) : Bool :=
  match (s.lookup path).2 with
  | .field t => t.isMixed
  | _ => false

theorem exists_of_findsMixed {s : Schema MemoryDocument} (h : findsMixed s path = true) :
    ∃ t, (s.lookup path).2 = .field t ∧ t.isMixed = true := by
  unfold findsMixed at h
  split at h
  · next t ht => exact ⟨t, ht, h⟩
  · cases h

/-- The notes of the home and of a room are mixed fields, but nothing is said to be under them. -/
theorem mixed_overlooked : ∃ place person : Schema MemoryDocument,
    compile {} notedPlace = .ok place ∧ compile {} (notedPerson place) = .ok person ∧
      (∃ t, (person.lookup "home.notes").2 = .field t ∧ t.isMixed = true) ∧
        Path.isBelow "home.notes" "home.notes.today" = true ∧
          person.isUnderMixed "home.notes.today" = false ∧
      (∃ t, (person.lookup "rooms.0.notes").2 = .field t ∧ t.isMixed = true) ∧
        Path.isBelow "rooms.0.notes" "rooms.0.notes.today" = true ∧
          person.isUnderMixed "rooms.0.notes.today" = false := by
  have h : ((compile {} notedPlace).toOption.any fun place =>
      (compile {} (notedPerson place)).toOption.any fun person =>
        (findsMixed person "home.notes" && !person.isUnderMixed "home.notes.today") &&
          (findsMixed person "rooms.0.notes" && !person.isUnderMixed "rooms.0.notes.today")) =
            true := by
    decide +kernel
  obtain ⟨place, hplace, h⟩ := exists_ok_of_any h
  obtain ⟨person, hperson, h⟩ := exists_ok_of_any h
  simp only [Bool.and_eq_true, Bool.not_eq_true'] at h
  obtain ⟨⟨home, unseen⟩, room, unseen'⟩ := h
  exact ⟨place, person, hplace, hperson, exists_of_findsMixed home, by decide, unseen,
    exists_of_findsMixed room, by decide, unseen'⟩

end Schema

end DocSchema
