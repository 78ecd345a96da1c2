import DocSchema.Proofs.Outcomes
import DocSchema.Proofs.Schema.IndexWalk
import DocSchema.Proofs.Schema.Lookups
import DocSchema.Proofs.Table.Order

/-!
# What is remembered never goes stale

A schema remembers what it found at paths with positions and what its indexes are. Both are
forgotten where a field is declared, and the indexes also where an index is. Everything else that
calls do, also where they fail, leaves alone what these answers depend on (`Fresh.step`). So what is
remembered is what would be found now, and nobody can tell whether it is remembered
(`Fresh.unnoticed`).
-/

namespace DocSchema.Schema

variable {δ : Type} {s s' : Schema δ} {path : String}

/-! ### Indexes -/

/-- The indexes of a schema depend only on its fields and on those declared on it as a whole. -/
theorem indexes_congr (fields : s'.fields = s.fields) (own : s'.ownIndexes = s.ownIndexes) :
    s'.indexes = s.indexes := by
  unfold indexes
  rw [walk_of_not_mem List.not_mem_nil, walk_of_not_mem List.not_mem_nil, fields, own]

/-- Whether the indexes that are remembered are those that the schema has. -/
def IndexesKnown (s : Schema δ) : Prop := ∀ es, s.knownIndexes = some es → es = s.indexes

namespace IndexesKnown

theorem of_none (h : s.knownIndexes = none) : IndexesKnown s := by
  intro es known
  rw [h] at known
  cases known

theorem congr (h : IndexesKnown s) (fields : s'.fields = s.fields)
    (own : s'.ownIndexes = s.ownIndexes) (known : s'.knownIndexes = s.knownIndexes) :
    IndexesKnown s' := by
  intro es hes
  rw [indexes_congr fields own]
  exact h es (known ▸ hes)

/-- So they are the answer, remembered or not. -/
theorem indexedPaths_snd (h : IndexesKnown s) : s.indexedPaths.2 = s.indexes := by
  unfold indexedPaths
  split
  · next es known => exact h es known
  · rfl

end IndexesKnown

/-! ### The answer of `classify` -/

/-- What `classify` says of a path where what is remembered is true: this can be said without
remembering anything. -/
theorem AllRemembered.classify_snd (h : AllRemembered s) (path : String) :
    (s.classify path).2 =
      if Table.contains s.fields path then .real
      else if Table.contains s.virtuals path then .virtual
      else if s.hasGroup path then .nested
      else if (s.declared? path).isSome then .real
      else if Path.isPositional path then (s.locate path).pathClass
      else .adhocOrUndefined := by
  unfold classify
  split
  · rfl
  · split
    · rfl
    · split
      · rfl
      · cases known : s.declared? path with
        | some t =>
          rw [h.direct?_of_knowsField (knowsField_of_declared? known), known]
          rfl
        | none =>
          rw [direct?_of_unknown known]
          cases hl : Table.get? s.located path with
          | none =>
            have search : (s.remember path).2 = s.locate path := (h.remember path).1
            simp only [Option.bind_none, Option.isSome_none, Bool.false_eq_true, if_false]
            split
            · exact congrArg Located.pathClass search
            · rfl
          | some found =>
            -- a field that was found is real at once, anything else is looked up
            obtain ⟨positional, located, -, -⟩ := h path found hl
            have search : (s.remember path).2 = found := (h.remember path).1.trans located.symm
            rw [← located, positional]
            cases found with
            | field t => rfl
            | group => exact congrArg Located.pathClass search
            | nowhere => exact congrArg Located.pathClass search

/-! ### Everything that is remembered -/

def forgetful (s : Schema δ) : Schema δ := { s with located := [], knownIndexes := none }

/-- Whether all that a schema remembers is as it would be found now. -/
structure Fresh (s : Schema δ) : Prop where
  distinct : (Table.keys s.located).Nodup
  remembered : AllRemembered s
  indexes : IndexesKnown s

namespace Fresh

theorem empty (o : Options) : Fresh (Schema.empty o : Schema δ) where
  distinct := List.nodup_nil
  remembered := .empty o
  indexes := .of_none rfl

theorem forgetful (s : Schema δ) : Fresh s.forgetful where
  distinct := List.nodup_nil
  remembered path found h := by cases h
  indexes := .of_none rfl

end Fresh

theorem adopt_located (s : Schema δ) (path : String) (t : FieldType δ) :
    (s.adopt path t).located = [] := by
  unfold adopt
  split <;> rfl

theorem adopt_knownIndexes (s : Schema δ) (path : String) (t : FieldType δ) :
    (s.adopt path t).knownIndexes = none := by
  unfold adopt
  split <;> rfl

section

variable [Document δ] {R : Schema δ → Prop}

/-- No path is remembered twice. -/
theorem nodup_located_step (hs : Step R s s') (h : (Table.keys s.located).Nodup) :
    (Table.keys s'.located).Nodup := by
  cases hs with
  | bind placed _ =>
    obtain ⟨-, -, tree, -, rfl⟩ := place_ok placed
    exact h
  | declare =>
    rw [adopt_located]
    exact List.nodup_nil
  | remember =>
    unfold remember
    split
    · exact h
    · exact Table.nodup_keys_insert _ _ _ h
  | addHook entry =>
    unfold addHook
    split <;> exact h
  | addStampHook =>
    unfold addStampHook
    split <;> exact h
  | _ => exact h

/-- The indexes are forgotten wherever they might change. -/
theorem IndexesKnown.step (h : IndexesKnown s) (hs : Step R s s') : IndexesKnown s' := by
  cases hs with
  | bind placed _ =>
    obtain ⟨-, -, tree, -, rfl⟩ := place_ok placed
    exact h.congr rfl rfl rfl
  | declare => exact .of_none (adopt_knownIndexes _ _ _)
  | remember =>
    unfold remember
    split <;> exact h.congr rfl rfl rfl
  | indexedPaths =>
    intro es known
    obtain rfl : s.indexes = es := Option.some.inj known
    symm
    exact indexes_congr rfl rfl
  | addIndex => exact .of_none rfl
  | addHook entry =>
    unfold addHook
    split <;> exact h.congr rfl rfl rfl
  | addStampHook =>
    unfold addStampHook
    split <;> exact h.congr rfl rfl rfl
  | _ => exact h.congr rfl rfl rfl

/-- Every step keeps what is remembered fresh. -/
theorem Fresh.step (h : Fresh s) (hs : Step R s s') : Fresh s' where
  distinct := nodup_located_step hs h.distinct
  remembered := h.remembered.step hs
  indexes := h.indexes.step hs

end

namespace Fresh

/-- No search depends on what is remembered, since it starts at a name without a position. -/
theorem locate_forgetful (h : Fresh s) (path : String) :
    s.forgetful.locate path = s.locate path := by
  apply locate_congr
  intro name plain
  rw [(forgetful s).remembered.direct?_of_not_positional plain,
    h.remembered.direct?_of_not_positional plain]
  rfl

/-- A path is classified as if nothing were remembered. -/
theorem classify_forgetful (h : Fresh s) (path : String) :
    (s.forgetful.classify path).2 = (s.classify path).2 := by
  rw [h.remembered.classify_snd, (forgetful s).remembered.classify_snd, h.locate_forgetful]
  rfl

/-- And so are the indexes. -/
theorem indexedPaths_forgetful (h : Fresh s) : s.forgetful.indexedPaths.2 = s.indexedPaths.2 := by
  rw [h.indexes.indexedPaths_snd, (forgetful s).indexes.indexedPaths_snd]
  exact indexes_congr rfl rfl

end Fresh

/-! ### After any calls -/

/-- Whether nobody can tell what a schema remembers. -/
structure Unnoticed (s : Schema δ) : Prop where
  distinct : (Table.keys s.located).Nodup
  /-- What is remembered of a path is what a search finds now, and no field has the path. -/
  remembered : ∀ path found, (path, found) ∈ s.located → Remembered s path found
  known : ∀ es, s.knownIndexes = some es → es = s.indexes
  /-- With all that is remembered forgotten, a search finds the same. -/
  locate : ∀ path, s.forgetful.locate path = s.locate path
  classify : ∀ path, (s.forgetful.classify path).2 = (s.classify path).2
  indexedPaths : s.forgetful.indexedPaths.2 = s.indexedPaths.2

theorem Fresh.unnoticed (h : Fresh s) : Unnoticed s where
  distinct := h.distinct
  remembered path found there := h.remembered path found ((Table.mem_iff_get? h.distinct).1 there)
  known := h.indexes
  locate := h.locate_forgetful
  classify := h.classify_forgetful
  indexedPaths := h.indexedPaths_forgetful

variable [Document δ]

/-- Whatever calls are made on a compiled schema, in whatever order and whether they fail or not,
what is remembered is as it would be found now, and paths are classified and indexes are given as if
nothing were remembered. -/
theorem unnoticed_runAll {o : Options} {d : Definition δ} {s₀ : Schema δ}
    (compiled : compile o d = .ok s₀) (calls : List (Call δ)) :
    Unnoticed (Call.runAll s₀ calls) := by
  have steps : Steps (fun _ => True) (Schema.empty o) (Call.runAll s₀ calls) :=
    Call.steps_compile_runAll compiled calls
  have fresh : Fresh (Call.runAll s₀ calls) := steps.keep (fun _ _ st h => h.step st) (.empty o)
  exact fresh.unnoticed

/-- Calls that ask for a friend and for the indexes, before and after a call that fails half way. -/
def inquisitiveCalls : List (Call MemoryDocument) :=
  [.classify "friends.0.name", .indexedPaths,
    .add (.object [("pets", .object [("name", .literal .null)])]) "",
    .lookup "friends.1", .classify "pets.0"]

/-- A person of whom five things are asked, three of which are remembered. -/
theorem unnoticed_runAll_person : ∃ person : Schema MemoryDocument,
    compile {} personDefinition = .ok person ∧
      (Call.runAll person inquisitiveCalls).located.length = 3 ∧
        (Call.runAll person inquisitiveCalls).knownIndexes.isSome = true ∧
          Unnoticed (Call.runAll person inquisitiveCalls) := by
  have h : ((compile {} personDefinition).toOption.any fun person =>
      (Call.runAll person inquisitiveCalls).located.length == 3 &&
        (Call.runAll person inquisitiveCalls).knownIndexes.isSome) = true := by
    decide +kernel
  obtain ⟨person, compiled, h⟩ := exists_ok_of_any h
  obtain ⟨three, known⟩ := (Bool.and_eq_true _ _).mp h
  exact ⟨person, compiled, eq_of_beq three, known, unnoticed_runAll compiled inquisitiveCalls⟩

end DocSchema.Schema
