import DocSchema.Proofs.Path.Interchange
import DocSchema.Proofs.Schema.Caches
import DocSchema.Proofs.Schema.Elements

/-!
# Which position is asked for

Where no name has a position in it, a path with positions is looked up along its steps, and these do
not say how a position is spelled. So whichever positions a path has in the same places, the answers
are the same, whatever was asked before (`same_answers_alike`).

Nor does it matter how many positions follow one another at the end of a path. All but the last one
are skipped, so they lead one array down and no further, and not at all where the path ends at a
position itself (`lookup_extend`). In an array of arrays of names, two positions lead to an array of
names, not to a name (`second_position_skipped`).
-/

namespace DocSchema

variable {δ : Type}

namespace Call

open Schema

/-- A call without anything but look-ups in it is a look-up. -/
theorem asking_cases {c : Call δ} (asking : c.declarations = []) :
    ∃ path, c = .lookup path ∨ c = .classify path := by
  cases c with
  | lookup path => exact ⟨path, .inl rfl⟩
  | classify path => exact ⟨path, .inr rfl⟩
  | _ => cases asking

variable [Document δ] {s : Schema δ} {calls : List (Call δ)}

/-- Look-ups change nothing but what is remembered. -/
theorem unasked_runAll (asking : allDeclarations calls = []) :
    (runAll s calls).unasked = s.unasked := by
  induction calls generalizing s with
  | nil => rfl
  | cons c calls ih =>
    obtain ⟨first, others⟩ := List.append_eq_nil_iff.1 asking
    have after : (run s c).1.unasked = s.unasked := by
      obtain ⟨path, rfl | rfl⟩ := asking_cases first
      · exact unasked_lookup s path
      · exact unasked_classify s path
    exact (ih others).trans after

/-- Look-ups do not lead out of the schemas that can be reached. -/
theorem reachable_runAll (hs : Reachable s) (asking : allDeclarations calls = []) :
    Reachable (runAll s calls) := by
  induction calls generalizing s with
  | nil => exact hs
  | cons c calls ih =>
    obtain ⟨first, others⟩ := List.append_eq_nil_iff.1 asking
    have nothing : c.schemas = [] := by
      obtain ⟨path, rfl | rfl⟩ := asking_cases first <;> rfl
    have after : Reachable (run s c).1 := by
      apply Reached.call c hs _ trivial
      rw [nothing]
      exact fun b none => absurd none List.not_mem_nil
    exact ih after others

end Call

def Located.ofField? : Option (FieldType δ) → Located δ
  | some t => .field t
  | none => .nowhere

namespace Schema

variable {s s' : Schema δ} {p q path : String} {t : FieldType δ}

/-! ### Spellings -/

/-- Paths that are alike lead to the same. -/
theorem traceFrom_alike (alike : Path.Alike p q) : s.traceFrom p = s.traceFrom q := by
  rw [traceFrom, traceFrom, alike.steps_eq]

theorem PlainNames.not_field (plain : PlainNames s) (hp : Path.isPositional path = true) :
    Table.contains s.fields path = false := by
  rw [Bool.eq_false_iff]
  intro known
  apply plain.not_mem hp
  simp [names, (Table.contains_iff_mem_keys _ _).1 known]

theorem PlainNames.of_unasked (plain : PlainNames s) (same : s'.unasked = s.unasked) :
    PlainNames s' := by
  have names_eq : s'.names = s.names :=
    calc s'.names = s'.unasked.names := rfl
      _ = s.unasked.names := by rw [same]
      _ = s.names := rfl
  intro n hn
  rw [names_eq] at hn
  exact plain n hn

section

variable [Document δ] {allowed allowed' : Schema δ → Call δ → Prop}

theorem Reached.fresh (hs : Reached allowed s) : Fresh s :=
  hs.induct Fresh.empty fun _ _ step fresh => fresh.step step

/-- A path with positions is no known name, so it is of the class of what it leads to. -/
theorem Reached.classify_snd_of_plain (hs : Reached allowed s) (plain : PlainNames s)
    (hp : Path.isPositional path = true) :
    (s.classify path).2 = (s.traceFrom path).pathClass := by
  have unknown := plain.declared?_eq_none hp
  rw [hs.allRemembered.classify_snd, plain.not_field hp, plain.not_virtual hp,
    plain.not_hasGroup hp, unknown, hp, hs.locate_eq]
  rfl

/-- Whatever was asked before, a path is classified in the same way. -/
theorem Reached.classify_of_unasked (hs : Reached allowed s) (hs' : Reached allowed' s')
    (same : s'.unasked = s.unasked) (path : String) :
    (s'.classify path).2 = (s.classify path).2 := by
  have forgetful_eq : s'.forgetful = s.forgetful :=
    calc s'.forgetful = s'.unasked.forgetful := rfl
      _ = s.unasked.forgetful := by rw [same]
      _ = s.forgetful := rfl
  rw [← hs.fresh.classify_forgetful, ← hs'.fresh.classify_forgetful, forgetful_eq]

/-- And so it is looked up, where names are plain. -/
theorem Reached.lookup_of_unasked (hs : Reached allowed s) (hs' : Reached allowed' s')
    (plain : PlainNames s) (same : s'.unasked = s.unasked) (path : String) :
    (s'.lookup path).2 = (s.lookup path).2 := by
  have meaning_eq : s'.meaning path = s.meaning path :=
    calc s'.meaning path = s'.unasked.meaning path := rfl
      _ = s.unasked.meaning path := by rw [same]
      _ = s.meaning path := rfl
  rw [hs'.lookup_snd_of_plain (plain.of_unasked same), hs.lookup_snd_of_plain plain, meaning_eq]

/-- Where no name has a position in it, a path may have other positions in the places of its own
ones: the answers are the same, whatever was asked before. -/
theorem same_answers_alike (hs : Reachable s) (plain : PlainNames s) {asked asked' : List (Call δ)}
    (asking : Call.allDeclarations asked = []) (asking' : Call.allDeclarations asked' = [])
    (alike : Path.Alike p q) :
    ((Call.runAll s asked).classify p).2 = ((Call.runAll s asked').classify q).2 ∧
      ((Call.runAll s asked).lookup p).2 = ((Call.runAll s asked').lookup q).2 := by
  have reached := Call.reachable_runAll hs asking
  have reached' := Call.reachable_runAll hs asking'
  have same : (Call.runAll s asked).unasked = s.unasked := Call.unasked_runAll asking
  have same' : (Call.runAll s asked').unasked = s.unasked := Call.unasked_runAll asking'
  rw [hs.classify_of_unasked reached same, hs.classify_of_unasked reached' same',
    hs.lookup_of_unasked reached plain same, hs.lookup_of_unasked reached' plain same']
  rcases alike.eq_or_positional with rfl | ⟨hp, hq⟩
  · exact ⟨rfl, rfl⟩
  · have leads : s.traceFrom p = s.traceFrom q := traceFrom_alike alike
    constructor
    · rw [hs.classify_snd_of_plain plain hp, hs.classify_snd_of_plain plain hq, leads]
    · rw [hs.lookup_snd_of_plain plain, hs.lookup_snd_of_plain plain, plain.meaning_eq hp,
        plain.meaning_eq hq, leads]

/-- A friend of a person is the same by any position, whatever was asked of the person before. -/
theorem same_answers_alike_friends : ∃ person : Schema MemoryDocument,
    compile {} personDefinition = .ok person ∧
      ((Call.runAll person [.classify "friends.0.name"]).classify "friends.0.name").2 =
        ((Call.runAll person [.lookup "friends.12"]).classify "friends.$.name").2 ∧
      ((Call.runAll person [.classify "friends.0.name"]).lookup "friends.0.name").2 =
        ((Call.runAll person [.lookup "friends.12"]).lookup "friends.$.name").2 := by
  have h : ((compile {} personDefinition).toOption.any fun person =>
      person.names.all Path.isPlain) = true := by
    decide +kernel
  obtain ⟨person, compiled, plain⟩ := exists_ok_of_any h
  have reached : Reachable person := by
    apply Reached.compile _ compiled
    simp [personDefinition, Definition.schemas, Definition.fieldSchemas, Definition.itemSchemas]
  have alike : Path.Alike "friends.0.name" "friends.$.name" := by
    refine ⟨by decide, ?_⟩
    show List.Forall₂ Path.AlikeSegment ["0", "name"] ["$", "name"]
    exact .cons (.inr (by decide)) (.cons (.inl rfl) .nil)
  exact ⟨person, compiled,
    same_answers_alike reached (List.all_eq_true.1 plain) rfl rfl alike⟩

end

/-! ### Positions at the end -/

theorem field?_trace_nil (current : Option (FieldType δ)) (isGroup : Bool) :
    (trace current isGroup []).field? = current := by
  cases current with
  | none => cases isGroup <;> rfl
  | some t => rfl

/-- Positions lead to an element of what is there, however many they are. -/
theorem trace_positions (current : Option (FieldType δ)) (isGroup : Bool) (k : Nat) :
    trace current isGroup (List.replicate (k + 1) .position) =
      .ofField? (current.bind FieldType.element?) := by
  induction k generalizing isGroup with
  | zero =>
    show trace current isGroup [.position] = _
    rw [trace]
    rfl
  | succ k ih =>
    rw [List.replicate_succ, trace, ih false]
    simp

/-- Of the positions at the end of some steps, all but one can be left out. -/
theorem trace_append_positions (k : Nat) :
    ∀ (front : List Path.Step) (current : Option (FieldType δ)) (isGroup : Bool),
      trace current isGroup (front ++ List.replicate (k + 1) .position) =
        trace current isGroup (front ++ [.position])
  | [], current, isGroup => by
    rw [List.nil_append, List.nil_append, trace_positions]
    exact (trace_positions current isGroup 0).symm
  | .position :: front, current, isGroup => by
    rw [List.cons_append, List.cons_append, trace, trace, trace_append_positions k front] <;> simp
  | .field name :: front, current, isGroup => by
    rw [List.cons_append, List.cons_append, trace, trace]
    cases current.bind FieldType.schema? with
    | none => rfl
    | some child => exact trace_append_positions k front _ _

/-- A position after a name leads to an element of what is found there. -/
theorem trace_append_position (name : String) :
    ∀ (front : List Path.Step) (current : Option (FieldType δ)) (isGroup : Bool),
      trace current isGroup (front ++ [.field name, .position]) =
        .ofField? ((trace current isGroup (front ++ [.field name])).field?.bind
          FieldType.element?)
  | [], current, isGroup => by
    rw [List.nil_append, List.nil_append, trace, trace]
    cases current.bind FieldType.schema? with
    | none => rfl
    | some child =>
      show trace (child.declared? name) (child.groups.contains name) [.position] = _
      rw [field?_trace_nil]
      exact trace_positions _ _ 0
  | .position :: front, current, isGroup => by
    rw [List.cons_append, List.cons_append, trace, trace, trace_append_position name front] <;> simp
  | .field n :: front, current, isGroup => by
    rw [List.cons_append, List.cons_append, trace, trace]
    cases current.bind FieldType.schema? with
    | none => rfl
    | some child => exact trace_append_position name front _ _

/-- Through the steps of a path, the search starts at its first name. -/
theorem traceFrom_of_steps {head : String} {rest : List Path.Step}
    (steps : Path.steps path = .field head :: rest) :
    s.traceFrom path = trace (s.declared? head) false rest := by
  rw [traceFrom, steps]

theorem traceFrom_extend_of_endsAtPosition {positions : List String}
    (all : ∀ i ∈ positions, Path.isPosition i = true)
    (ends : Path.endsAtPosition path = true) :
    s.traceFrom (Path.extend path positions) = s.traceFrom path := by
  obtain ⟨parent, i, position, rfl⟩ := Path.exists_extend_of_endsAtPosition ends
  obtain ⟨head, rest, steps⟩ := Path.exists_steps_eq parent
  have single : ∀ j ∈ [i], Path.isPosition j = true := by simpa using position
  have many : ∀ j ∈ i :: positions, Path.isPosition j = true := by simpa using ⟨position, all⟩
  have one : Path.steps (Path.extend parent [i]) = Path.steps parent ++ [.position] :=
    Path.steps_extend single
  have more : Path.steps (Path.extend parent (i :: positions)) =
      Path.steps parent ++ List.replicate (positions.length + 1) .position :=
    Path.steps_extend many
  rw [steps, List.cons_append] at one more
  show s.traceFrom (Path.extend parent (i :: positions)) = _
  rw [traceFrom_of_steps more, traceFrom_of_steps one]
  exact trace_append_positions positions.length rest _ _

theorem traceFrom_extend_of_not_endsAtPosition {positions : List String} (nonempty : positions ≠ [])
    (all : ∀ i ∈ positions, Path.isPosition i = true)
    (ends : Path.endsAtPosition path = false) :
    s.traceFrom (Path.extend path positions) =
      .ofField? ((s.traceFrom path).field?.bind FieldType.element?) := by
  obtain ⟨k, length⟩ := Nat.exists_eq_succ_of_ne_zero (mt List.length_eq_zero_iff.1 nonempty)
  obtain ⟨front, name, steps⟩ := Path.steps_of_not_endsAtPosition ends
  have longer : Path.steps (Path.extend path positions) =
      Path.steps path ++ List.replicate positions.length .position := Path.steps_extend all
  rw [length, steps] at longer
  cases front with
  | nil =>
    rw [traceFrom_of_steps longer, traceFrom_of_steps steps, field?_trace_nil]
    exact trace_positions _ _ k
  | cons first front =>
    obtain ⟨head, rest, starts⟩ := Path.exists_steps_eq path
    obtain ⟨rfl, -⟩ := List.cons.inj (steps.symm.trans starts)
    rw [List.cons_append] at steps
    rw [List.cons_append, List.cons_append] at longer
    rw [traceFrom_of_steps longer, traceFrom_of_steps steps, trace_append_positions,
      List.append_assoc]
    exact trace_append_position name front _ _

/-- Where a field is found, its path leads to it. -/
theorem PlainNames.traceFrom_of_meaning (plain : PlainNames s) (found : s.meaning path = .field t) :
    s.traceFrom path = .field t := by
  cases hp : Path.isPositional path with
  | true => rw [← plain.meaning_eq hp, found]
  | false =>
    rw [traceFrom_of_steps (Path.steps_of_not_isPositional hp)]
    rw [meaning, hp] at found
    cases known : s.declared? path with
    | some t' =>
      rw [known] at found
      exact found
    | none =>
      rw [known] at found
      dsimp only at found
      split at found <;> cases found

variable [Document δ]

/-- Where a path leads to a field, positions after it lead to the elements of the field, and only
those: all but the last one are skipped. After a position they lead nowhere else. -/
theorem lookup_extend (hs : Reachable s) (plain : PlainNames s)
    (found : (s.lookup path).2 = .field t) {positions : List String} (nonempty : positions ≠ [])
    (all : ∀ i ∈ positions, Path.isPosition i = true) :
    (s.lookup (Path.extend path positions)).2 =
      .ofLocated (.ofField? (if Path.endsAtPosition path then some t else t.element?)) := by
  rw [hs.lookup_snd_of_plain plain, Lookup.ofLocated_eq_field] at found
  have leads := plain.traceFrom_of_meaning found
  rw [hs.lookup_snd_of_plain plain, plain.meaning_eq (Path.isPositional_extend nonempty all)]
  cases ends : Path.endsAtPosition path with
  | true =>
    rw [traceFrom_extend_of_endsAtPosition all ends, leads]
    rfl
  | false =>
    rw [traceFrom_extend_of_not_endsAtPosition nonempty all ends, leads]
    rfl

def gridDefinition : Definition MemoryDocument :=
  .object [("grid", .array [.array [.literal (.str "String")]])]

/-- The type of what is reached in an array by going down some levels. -/
def levelsDown : Nat → FieldType δ → Option (FieldType δ)
  | 0, t => some t
  | k + 1, t => t.element?.bind (levelsDown k)

/-- Whether a field is found that has something some levels down, and nothing below that. -/
def endsDown (s : Schema MemoryDocument) (path : String) (k : Nat) : Bool :=
  match (s.lookup path).2 with
  | .field t => (levelsDown k t).any fun e => e.element?.isNone
  | _ => false

theorem exists_of_endsDown {s : Schema MemoryDocument} {k : Nat} (h : endsDown s path k = true) :
    ∃ t e, (s.lookup path).2 = .field t ∧ levelsDown k t = some e ∧ e.element? = none := by
  unfold endsDown at h
  split at h
  · next t found =>
    obtain ⟨e, levels, last⟩ := (Option.any_eq_true _ _).1 h
    exact ⟨t, e, found, levels, Option.isNone_iff_eq_none.1 last⟩
  · cases h

theorem exists_city : ∃ city : Schema MemoryDocument, compile {} gridDefinition = .ok city ∧
    Reachable city ∧ PlainNames city ∧ endsDown city "grid" 2 = true ∧
      endsDown city "grid.0" 1 = true ∧ endsDown city "grid.0.0" 1 = true := by
  have h : ((compile {} gridDefinition).toOption.any fun city =>
      city.names.all Path.isPlain && endsDown city "grid" 2 && endsDown city "grid.0" 1 &&
        endsDown city "grid.0.0" 1) = true := by
    decide +kernel
  obtain ⟨city, compiled, h⟩ := exists_ok_of_any h
  simp only [Bool.and_eq_true] at h
  obtain ⟨⟨⟨plain, none⟩, once⟩, twice⟩ := h
  have reached : Reachable city := by
    apply Reached.compile _ compiled
    simp [gridDefinition, Definition.schemas, Definition.fieldSchemas, Definition.itemSchemas]
  exact ⟨city, compiled, reached, List.all_eq_true.1 plain, none, once, twice⟩

/-- The second position in a grid leads to the same as the first one. -/
theorem lookup_extend_grid : ∃ city : Schema MemoryDocument, ∃ t row,
    compile {} gridDefinition = .ok city ∧ (city.lookup "grid").2 = .field t ∧
      t.element? = some row ∧ (city.lookup "grid.0").2 = .field row ∧
        (city.lookup "grid.$.7").2 = .field row := by
  obtain ⟨city, compiled, reached, plain, grid, -⟩ := exists_city
  obtain ⟨t, street, found, levels, -⟩ := exists_of_endsDown grid
  obtain ⟨row, element, -⟩ := Option.bind_eq_some_iff.1 levels
  have leads (positions : List String) (nonempty : positions ≠ [])
      (all : ∀ i ∈ positions, Path.isPosition i = true) :
      (city.lookup (Path.extend "grid" positions)).2 = .field row := by
    rw [lookup_extend reached plain found nonempty all, element]
    rfl
  have once := leads ["0"] (by decide) (by decide)
  have twice := leads ["$", "7"] (by decide) (by decide)
  exact ⟨city, t, row, compiled, found, element, once, twice⟩

/-- So two positions do not lead two levels down from the grid, nor does one more lead one level
down from a row: there are names of streets, but what is found is an array of them. -/
theorem second_position_skipped : ∃ city : Schema MemoryDocument, ∃ t row street street',
    Reachable city ∧ PlainNames city ∧
      (city.lookup "grid").2 = .field t ∧ levelsDown 2 t = some street ∧
      (city.lookup "grid.0").2 = .field row ∧ levelsDown 1 row = some street' ∧
      (city.lookup "grid.0.0").2 ≠ .field street ∧ (city.lookup "grid.0.0").2 ≠ .field street' := by
  obtain ⟨city, -, reached, plain, grid, once, twice⟩ := exists_city
  obtain ⟨t, street, foundGrid, levels, last⟩ := exists_of_endsDown grid
  obtain ⟨row, street', foundRow, levels', last'⟩ := exists_of_endsDown once
  -- what is found has elements, and a street has none
  obtain ⟨found, e, there, level, -⟩ := exists_of_endsDown twice
  have other {x : FieldType MemoryDocument} (bottom : x.element? = none) :
      (city.lookup "grid.0.0").2 ≠ .field x := by
    intro same
    obtain rfl : x = found := Lookup.field.inj (same.symm.trans there)
    rw [levelsDown, bottom] at level
    cases level
  exact ⟨city, t, row, street, street', reached, plain, foundGrid, levels, foundRow, levels',
    other last, other last'⟩

end Schema

end DocSchema
