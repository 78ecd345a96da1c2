import DocSchema.Proofs.Path.Positions
import DocSchema.Proofs.Schema.Asking
import DocSchema.Proofs.Schema.Embedded

/-!
# The two look-ups agree

`lookup` and `classify` look for a path in different orders: among the fields, the groups and the
virtuals, in embedded schemas, and among what earlier look-ups found. What they find is the same,
since all these names are apart (`Orderly`) and what is remembered is what a search would find now
(`Remembered`).

`meaning` says what a path stands for by declared names alone: nothing remembered is read for it,
not in sub-schemas either. Both look-ups are functions of it (`lookup_snd`, `classify_snd`), so
earlier look-ups make no difference.
-/

namespace DocSchema

variable {δ : Type}

/-- What `lookup` says of what a path stands for. -/
def Lookup.ofLocated : Located δ → Lookup δ
  | .field t => .field t
  | .group => .group
  | .nowhere => .notFound

namespace Schema

variable {s s' : Schema δ} {path : String}

/-! ### What a path stands for -/

/-- The field at a path among the declared names, here or in an embedded schema. -/
def declared? (s : Schema δ) (path : String) : Option (FieldType δ) :=
  (Table.get? s.fields path).or (Table.get? s.embeddedFields path)

/-- Follow the steps after those that led to `current`, by declared names alone. -/
def trace (current : Option (FieldType δ)) (isGroup : Bool) : List Path.Step → Located δ
  | [] =>
    match current with
    | some t => .field t
    | none => if isGroup then .group else .nowhere
  | [.position] =>
    match current.bind FieldType.element? with
    | some t => .field t
    | none => .nowhere
  | .position :: rest => trace current false rest
  | .field name :: rest =>
    match current.bind FieldType.schema? with
    | some child => trace (child.declared? name) (child.groups.contains name) rest
    | none => .nowhere

/-- What is found by following a path through positions, by declared names alone. -/
def traceFrom (s : Schema δ) (path : String) : Located δ :=
  match Path.steps path with
  | .field name :: rest => trace (s.declared? name) false rest
  | _ => .nowhere

/-- What a path stands for, by declared names alone. -/
def meaning (s : Schema δ) (path : String) : Located δ :=
  match s.declared? path with
  | some t => .field t
  | none =>
    if s.hasGroup path then .group
    else if Path.isPositional path then s.traceFrom path
    else .nowhere

theorem knowsField_of_declared? {t : FieldType δ} (h : s.declared? path = some t) :
    s.KnowsField path := by
  rw [declared?, Option.or_eq_some_iff] at h
  rcases h with h | ⟨-, h⟩
  · exact .inl ((Table.contains_iff_mem_keys _ _).1 ((Table.contains_iff_get? _ _).2 ⟨t, h⟩))
  · exact .inr ((Table.contains_iff_mem_keys _ _).1 ((Table.contains_iff_get? _ _).2 ⟨t, h⟩))

theorem declared?_eq_none (h : ¬ s.KnowsField path) : s.declared? path = none := by
  rw [Option.eq_none_iff_forall_ne_some]
  exact fun t ht => h (knowsField_of_declared? ht)

theorem not_knowsField_of_direct? (h : s.direct? path = none) : ¬ s.KnowsField path := by
  have unknown {t : Table (FieldType δ)} (hn : Table.get? t path = none) : path ∉ Table.keys t := by
    intro hm
    rw [Table.get?_eq_none_iff, (Table.contains_iff_mem_keys _ _).2 hm] at hn
    cases hn
  rw [direct?, Option.or_eq_none_iff, Option.or_eq_none_iff] at h
  exact fun hk => hk.elim (unknown h.1) (unknown h.2.2)

/-- From nothing, no steps lead anywhere. -/
theorem follow_none (steps : List Path.Step) : follow (none : Option (FieldType δ)) false steps =
    .nowhere := by
  match steps with
  | [] => rfl
  | [.position] => rfl
  | .position :: step :: rest =>
    rw [follow]
    · exact follow_none (step :: rest)
    · simp
  | .field name :: rest => rfl

/-! ### The answer of a look-up -/

/-- Where a path is no known field, only what is remembered is found directly. -/
theorem direct?_of_unknown (h : s.declared? path = none) :
    s.direct? path = (Table.get? s.located path).bind Located.field? := by
  rw [declared?, Option.or_eq_none_iff] at h
  rw [direct?, h.1, h.2]
  simp

/-- The answer of `lookup` once the path has been looked for. -/
def answer (s : Schema δ) (path : String) : Lookup δ :=
  match s.direct? path with
  | some t => .field t
  | none =>
    if s.hasGroup path || ((Table.get? s.located path).map Located.isGroup).getD false then .group
    else .notFound

theorem lookup_snd_eq (s : Schema δ) (path : String) : (s.lookup path).2 =
    answer (if (s.direct? path).isNone && !s.hasGroup path && Path.isPositional path then
      (s.remember path).1 else s) path := by
  unfold lookup answer
  dsimp only
  generalize (if (s.direct? path).isNone && !s.hasGroup path && Path.isPositional path then
    (s.remember path).1 else s) = s'
  cases s'.direct? path with
  | some t => rfl
  | none =>
    dsimp only
    split <;> rfl

/-- An unknown path that is remembered is answered by what is remembered. -/
theorem answer_of_remembered {found : Located δ} (hd : s.declared? path = none)
    (hg : s.hasGroup path = false) (hl : Table.get? s.located path = some found) :
    answer s path = .ofLocated found := by
  unfold answer
  rw [direct?_of_unknown hd, hl, hg]
  cases found <;> rfl

/-! ### What is remembered is true -/

/-- What a look-up of a path left behind is what it would find now. -/
structure Remembered (s : Schema δ) (path : String) (found : Located δ) : Prop where
  positional : Path.isPositional path = true
  located : found = s.locate path
  no_field : ¬ s.KnowsField path
  no_group : path ∉ s.embeddedGroups

/-- Whether all that is remembered is true. -/
def AllRemembered (s : Schema δ) : Prop :=
  ∀ path found, Table.get? s.located path = some found → Remembered s path found

theorem locate_congr
    (h : ∀ name, Path.isPositional name = false → s'.direct? name = s.direct? name) :
    s'.locate path = s.locate path := by
  have names {name : String} (hn : Path.Step.field name ∈ Path.steps path) :
      Path.isPositional name = false := Path.isPositional_of_mem_steps hn
  unfold locate
  split
  · next name rest hs =>
    rw [hs] at names
    rw [h name (names List.mem_cons_self)]
  · rfl

namespace AllRemembered

theorem empty (o : Options) : AllRemembered (Schema.empty o : Schema δ) := by
  intro path found h
  simp [Schema.empty] at h

theorem congr (h : AllRemembered s) (hl : s'.located = s.located) (hf : s'.fields = s.fields)
    (he : s'.embeddedFields = s.embeddedFields) (hg : s'.embeddedGroups = s.embeddedGroups) :
    AllRemembered s' := by
  intro path found hp
  rw [hl] at hp
  obtain ⟨positional, located, no_field, no_group⟩ := h path found hp
  refine ⟨positional, ?_, ?_, hg ▸ no_group⟩
  · rw [located]
    exact (locate_congr fun name _ => by rw [direct?, direct?, hl, hf, he]).symm
  · rw [KnowsField, hf, he]
    exact no_field

/-- Names without positions are not remembered. -/
theorem get?_of_not_positional (h : AllRemembered s) (hp : Path.isPositional path = false) :
    Table.get? s.located path = none := by
  rw [Option.eq_none_iff_forall_ne_some]
  intro found hf
  rw [(h path found hf).positional] at hp
  cases hp

/-- So they are found among the declared names. -/
theorem direct?_of_not_positional (h : AllRemembered s) (hp : Path.isPositional path = false) :
    s.direct? path = s.declared? path := by
  rw [direct?, declared?, h.get?_of_not_positional hp]
  rfl

/-- Known fields are not remembered either. -/
theorem direct?_of_knowsField (h : AllRemembered s) (hk : s.KnowsField path) :
    s.direct? path = s.declared? path := by
  have forgotten : Table.get? s.located path = none := by
    rw [Option.eq_none_iff_forall_ne_some]
    exact fun found hf => (h path found hf).no_field hk
  rw [direct?, declared?, forgotten]
  rfl

/-- A path that leads through no known field leads nowhere. -/
theorem locate_eq_nowhere (h : AllRemembered s) (hp : Path.isPositional path = true)
    (clear : ∀ head, s.KnowsField head → Path.isBelow head path = false) :
    s.locate path = .nowhere := by
  obtain ⟨head, rest, hs, hb⟩ := Path.steps_of_isPositional hp
  have hn : Path.isPositional head = false :=
    Path.isPositional_of_mem_steps (hs ▸ List.mem_cons_self)
  have unknown : ¬ s.KnowsField head := by
    intro hk
    rw [clear head hk] at hb
    cases hb
  unfold locate
  rw [hs]
  show follow (s.direct? head) false (.position :: rest) = .nowhere
  rw [h.direct?_of_not_positional hn, declared?_eq_none unknown, follow_none]

/-- Looking for a path and remembering it gives what is there. -/
theorem remember (h : AllRemembered s) (path : String) : (s.remember path).2 = s.locate path ∧
    Table.get? (s.remember path).1.located path = some (s.locate path) := by
  unfold Schema.remember
  split
  · next found hf => exact ⟨(h path found hf).located, (h path found hf).located ▸ hf⟩
  · exact ⟨rfl, Table.get?_insert_self _ _ _⟩

/-- What is remembered stays true where a path is looked up that is no known name. -/
theorem rememberMore (h : AllRemembered s) (unknown : s.direct? path = none)
    (noGroup : s.hasGroup path = false) (positional : Path.isPositional path = true) :
    AllRemembered (s.remember path).1 := by
  unfold Schema.remember
  split
  · exact h
  · next fresh =>
    -- only the path itself is remembered anew, and no search goes through it
    have same (other : String) : locate { s with
        located := Table.insert s.located path (s.locate path) } other = s.locate other := by
      refine locate_congr fun name hn => ?_
      have hne : name ≠ path := by
        rintro rfl
        rw [positional] at hn
        cases hn
      simp only [direct?, Table.get?_insert_of_ne _ _ hne]
    have noField := not_knowsField_of_direct? unknown
    have noKnown : path ∉ s.embeddedGroups := fun hm => by
      rw [hasGroup_iff.2 (.inr hm)] at noGroup
      cases noGroup
    intro other found hf
    by_cases he : other = path
    · subst he
      obtain rfl := Option.some.inj ((Table.get?_insert_self _ _ _).symm.trans hf)
      exact ⟨positional, (same other).symm, noField, noKnown⟩
    · have hf : Table.get? s.located other = some found :=
        (Table.get?_insert_of_ne _ _ he).symm.trans hf
      obtain ⟨positional, located, no_field, no_group⟩ := h other found hf
      exact ⟨positional, located.trans (same other).symm, no_field, no_group⟩

end AllRemembered

/-- Every step keeps what is remembered true. Declaring a field forgets all of it. -/
theorem AllRemembered.step [Document δ] {R : Schema δ → Prop} (h : AllRemembered s)
    (hs : Step R s s') : AllRemembered s' := by
  cases hs with
  | bind placed _ =>
    obtain ⟨-, -, tree, -, rfl⟩ := place_ok placed
    exact h.congr rfl rfl rfl rfl
  | @declare path d t s₁ placed _ _ =>
    intro other found hf
    have cleared : (s₁.adopt path t).located = [] := by
      unfold adopt
      split <;> rfl
    rw [cleared] at hf
    cases hf
  | remember unknown noGroup positional => exact h.rememberMore unknown noGroup positional
  | addHook entry =>
    unfold addHook
    split <;> exact h.congr rfl rfl rfl rfl
  | addStampHook =>
    unfold addStampHook
    split <;> exact h.congr rfl rfl rfl rfl
  | _ => exact h.congr rfl rfl rfl rfl

variable [Document δ] {allowed : Schema δ → Call δ → Prop}

theorem Reached.allRemembered (hs : Reached allowed s) : AllRemembered s :=
  hs.induct .empty fun _ _ st h => h.step st

/-- Only reached schemas are inside the fields that are known of a reached schema. -/
theorem Reached.inside_declared (hs : Reached allowed s) {t : FieldType δ}
    (h : s.declared? path = some t) : ∀ c ∈ t.schemas, Reached allowed c := by
  rw [declared?, Option.or_eq_some_iff] at h
  rcases h with h | ⟨-, h⟩
  · exact hs.inside (path, t) (List.mem_append_left _ (Table.mem_of_get? h))
  · exact hs.inside (path, t) (List.mem_append_right _ (Table.mem_of_get? h))

/-! ### Both look-ups by declared names -/

/-- Following steps finds what the declared names say, since no sub-schema on the way remembers
anything else. -/
theorem follow_eq_trace : ∀ (steps : List Path.Step) (current : Option (FieldType δ))
    (isGroup : Bool), (∀ t, current = some t → ∀ c ∈ t.schemas, Reached allowed c) →
      (∀ name, .field name ∈ steps → Path.isPositional name = false) →
      follow current isGroup steps = trace current isGroup steps
  | [], _, _, _, _ => rfl
  | [.position], _, _, _, _ => rfl
  | .position :: step :: rest, current, _, inside, names => by
    rw [follow, trace]
    · exact follow_eq_trace (step :: rest) current false inside fun name hn =>
        names name (List.mem_cons_of_mem _ hn)
    · simp
    · simp
  | .field name :: rest, current, _, inside, names => by
    rw [follow, trace]
    cases hc : current.bind FieldType.schema? with
    | none => rfl
    | some child =>
      obtain ⟨t, ht, hchild⟩ := Option.bind_eq_some_iff.1 hc
      have reached := inside t ht child (FieldType.mem_schemas_of_schema? hchild)
      have hn := names name List.mem_cons_self
      show follow (child.direct? name) _ rest = trace (child.declared? name) _ rest
      rw [reached.allRemembered.direct?_of_not_positional hn]
      refine follow_eq_trace rest _ _ (fun t ht => ?_) fun name hn =>
        names name (List.mem_cons_of_mem _ hn)
      exact reached.inside_declared ht

theorem Reached.locate_eq (hs : Reached allowed s) (path : String) :
    s.locate path = s.traceFrom path := by
  have names {name : String} (hn : Path.Step.field name ∈ Path.steps path) :
      Path.isPositional name = false := Path.isPositional_of_mem_steps hn
  unfold locate traceFrom
  cases h : Path.steps path with
  | nil => rfl
  | cons step rest =>
    rw [h] at names
    cases step with
    | position => rfl
    | field name =>
      show follow (s.direct? name) false rest = trace (s.declared? name) false rest
      rw [hs.allRemembered.direct?_of_not_positional (names List.mem_cons_self)]
      exact follow_eq_trace rest _ false (fun t ht => hs.inside_declared ht) fun n hn =>
        names (List.mem_cons_of_mem _ hn)

/-- Nothing is found below a field by going through positions at a group. -/
theorem Built.locate_of_group (hs : Built s) (hp : Path.isPositional path = true)
    (hg : path ∈ s.groups) : s.locate path = .nowhere := by
  have order := hs.orderly
  refine (Reached.allRemembered hs).locate_eq_nowhere hp fun head hk => ?_
  rw [Bool.eq_false_iff]
  intro hb
  obtain ⟨p, hf, hb⟩ := order.exists_field_above hk hb
  exact order.not_group_of_below hf hb hg

/-- Nor at a virtual. -/
theorem Built.locate_of_virtual (hs : Built s) (hp : Path.isPositional path = true)
    (hv : Table.contains s.virtuals path = true) : s.locate path = .nowhere := by
  have order := hs.orderly
  refine (Reached.allRemembered hs).locate_eq_nowhere hp fun head hk => ?_
  rw [Bool.eq_false_iff]
  intro hb
  obtain ⟨p, hf, hb⟩ := order.exists_field_above hk hb
  exact order.not_field_of_below hf hb (.inr hv)

/-- What is remembered of a group is that nothing was found. -/
theorem Built.direct?_of_group (hs : Built s) (hk : s.KnowsGroup path) : s.direct? path = none := by
  have remembered := Reached.allRemembered hs
  have noField : s.declared? path = none :=
    declared?_eq_none fun hf => hs.orderly.not_knowsGroup hf hk
  rw [declared?, Option.or_eq_none_iff] at noField
  rw [direct?, noField.1, noField.2]
  -- a group may be opened after its name was looked up, but never below a field
  cases hl : Table.get? s.located path with
  | none => rfl
  | some found =>
    obtain ⟨positional, located, -, no_group⟩ := remembered path found hl
    have nowhere := hs.locate_of_group positional (hk.resolve_right no_group)
    rw [located, nowhere]
    rfl

/-- Where a path is no known name, it stands for what a search through positions finds. -/
theorem Reached.meaning_of_unknown (hs : Reached allowed s) (hd : s.declared? path = none)
    (hg : s.hasGroup path = false) :
    s.meaning path = if Path.isPositional path then s.locate path else .nowhere := by
  rw [meaning, hd, hg, hs.locate_eq path]
  rfl

/-- The answer of `lookup` is what the path stands for by declared names, as long as nothing is
remembered of a group. -/
theorem Reached.lookup_snd (hs : Reached allowed s)
    (clear : s.hasGroup path = true → s.direct? path = s.declared? path) :
    (s.lookup path).2 = .ofLocated (s.meaning path) := by
  have remembered := hs.allRemembered
  rw [lookup_snd_eq]
  cases hd : s.declared? path with
  | some t =>
    -- a known field is found at once
    have direct := remembered.direct?_of_knowsField (knowsField_of_declared? hd)
    rw [direct, meaning, hd]
    show answer s path = .field t
    rw [answer, direct, hd]
  | none =>
    cases hg : s.hasGroup path with
    | true =>
      -- a group is not searched for
      have direct := (clear hg).trans hd
      rw [direct, meaning, hd, hg]
      show answer s path = .group
      rw [answer, direct, hg]
      rfl
    | false =>
      rw [hs.meaning_of_unknown hd hg]
      cases hp : Path.isPositional path with
      | false =>
        have forgotten := remembered.get?_of_not_positional hp
        rw [direct?_of_unknown hd, forgotten]
        show answer s path = .notFound
        rw [answer, direct?_of_unknown hd, hg, forgotten]
        rfl
      | true =>
        cases direct : s.direct? path with
        | some t =>
          -- only what is remembered can be found directly here
          rw [direct?_of_unknown hd, Option.bind_eq_some_iff] at direct
          obtain ⟨found, hf, -⟩ := direct
          show answer s path = .ofLocated (s.locate path)
          rw [answer_of_remembered hd hg hf, (remembered path found hf).located]
        | none =>
          -- the search is made now, and its result is the answer
          have same := sameNames_remember s path
          have hd' : (s.remember path).1.declared? path = none := by
            rw [declared?, same.fields, same.embeddedFields]
            exact hd
          have hg' : (s.remember path).1.hasGroup path = false := by
            rw [hasGroup, same.groups, same.embeddedGroups]
            exact hg
          show answer (s.remember path).1 path = .ofLocated (s.locate path)
          exact answer_of_remembered hd' hg' (remembered.remember path).2

/-- Where all calls succeed, nothing is remembered of a group. -/
theorem Built.lookup_snd (hs : Built s) (path : String) :
    (s.lookup path).2 = .ofLocated (s.meaning path) := by
  apply Reached.lookup_snd hs
  intro hg
  have known := hasGroup_iff.1 hg
  have noField := declared?_eq_none fun hf => hs.orderly.not_knowsGroup hf known
  rw [hs.direct?_of_group known, noField]

/-- The answer of `classify` for a path that is no field, no virtual and no group. -/
theorem Built.classify_of_unknown (hs : Built s) (hg : s.hasGroup path = false) :
    (if (s.direct? path).isSome then (s, PathClass.real)
      else if Path.isPositional path then
        let (s, found) := s.remember path
        (s, found.pathClass)
      else (s, .adhocOrUndefined)).2 = (s.meaning path).pathClass := by
  have remembered := Reached.allRemembered hs
  cases hd : s.declared? path with
  | some t =>
    have direct := remembered.direct?_of_knowsField (knowsField_of_declared? hd)
    rw [direct, meaning, hd]
    rfl
  | none =>
    rw [Reached.meaning_of_unknown hs hd hg]
    cases hp : Path.isPositional path with
    | false =>
      rw [direct?_of_unknown hd, remembered.get?_of_not_positional hp]
      rfl
    | true =>
      cases direct : s.direct? path with
      | none =>
        show (s.remember path).2.pathClass = (s.locate path).pathClass
        rw [(remembered.remember path).1]
      | some t =>
        rw [direct?_of_unknown hd, Option.bind_eq_some_iff] at direct
        obtain ⟨found, hl, ht⟩ := direct
        have located := (remembered path found hl).located
        show PathClass.real = (s.locate path).pathClass
        rw [← located]
        cases found <;> simp_all [Located.field?, Located.pathClass]

/-- The answer of `classify` is the class of what the path stands for by declared names, for a path
that is no virtual. -/
theorem Built.classify_snd (hs : Built s) (path : String) :
    (s.classify path).2 = if Table.contains s.virtuals path then .virtual
      else (s.meaning path).pathClass := by
  have order := hs.orderly
  unfold classify
  split
  · next hf =>
    obtain ⟨t, ht⟩ := (Table.contains_iff_get? _ _).1 hf
    rw [order.coherent.not_virtual hf, meaning, declared?, ht]
    rfl
  · next hf =>
    split
    · rfl
    · split
      · next hg =>
        have hd : s.declared? path = none :=
          declared?_eq_none fun hf => order.not_knowsGroup hf (hasGroup_iff.1 hg)
        rw [meaning, hd, hg]
        rfl
      · next hg => exact hs.classify_of_unknown (by simpa using hg)

/-- A virtual stands for nothing else. -/
theorem Built.meaning_of_virtual (hs : Built s) (hv : Table.contains s.virtuals path = true) :
    s.meaning path = .nowhere := by
  have order := hs.orderly
  have hd : s.declared? path = none := declared?_eq_none (order.not_knowsField_of_virtual hv)
  have hg : s.hasGroup path = false := by
    rw [Bool.eq_false_iff]
    exact fun hg => order.not_knowsGroup_of_virtual hv (hasGroup_iff.1 hg)
  rw [meaning, hd, hg]
  show (if Path.isPositional path then s.traceFrom path else .nowhere) = _
  split
  · next hp => rw [← Reached.locate_eq hs path, hs.locate_of_virtual hp hv]
  · rfl

/-! ### After any calls -/

/-- Whether both look-ups say the same of a path. -/
structure LookupsAgree (s : Schema δ) (path : String) : Prop where
  field : (s.classify path).2 = .real ↔ ∃ t, (s.lookup path).2 = .field t
  group : (s.classify path).2 = .nested ↔ (s.lookup path).2 = .group
  nothing : (s.lookup path).2 = .notFound ↔
    (s.classify path).2 = .virtual ∨ (s.classify path).2 = .adhocOrUndefined
  /-- The answers can be read off the declared names, whatever is remembered here or in the schemas
  inside. -/
  by_names : (s.lookup path).2 = .ofLocated (s.meaning path) ∧
    (s.classify path).2 = if Table.contains s.virtuals path then .virtual
      else (s.meaning path).pathClass

theorem Built.lookupsAgree (hs : Built s) (path : String) : LookupsAgree s path := by
  have lookup := hs.lookup_snd path
  have classify := hs.classify_snd path
  cases hv : Table.contains s.virtuals path with
  | true =>
    have nowhere := hs.meaning_of_virtual hv
    constructor
    all_goals rw [lookup, classify, nowhere, hv]
    all_goals simp [Lookup.ofLocated]
  | false =>
    constructor
    all_goals rw [lookup, classify, hv]
    all_goals cases s.meaning path <;> simp [Lookup.ofLocated, Located.pathClass]

/-- Two runs of calls that differ in look-ups only lead to the same answers. -/
theorem Built.same_answers (hs : Built s) (hs' : Built s') (same : s.unasked = s'.unasked)
    (path : String) : (s'.lookup path).2 = (s.lookup path).2 ∧
      (s'.classify path).2 = (s.classify path).2 := by
  have meaning_eq : s'.meaning path = s.meaning path :=
    calc s'.meaning path = s'.unasked.meaning path := rfl
      _ = s.unasked.meaning path := by rw [same]
  have virtuals_eq : s'.virtuals = s.virtuals :=
    calc s'.virtuals = s'.unasked.virtuals := rfl
      _ = s.unasked.virtuals := by rw [same]
  rw [hs.lookup_snd, hs'.lookup_snd, hs.classify_snd, hs'.classify_snd, meaning_eq, virtuals_eq]
  exact ⟨rfl, rfl⟩

/-- Where all calls succeed, both look-ups say the same of every path, and the same as if other
look-ups had been made among the calls, or none. -/
theorem lookups_agree {o : Options} {d : Definition δ} {s₀ : Schema δ} {calls : List (Call δ)}
    (inside : ∀ c ∈ d.schemas, Built c) (compiled : compile o d = .ok s₀)
    (built : ∀ c ∈ Call.allSchemas calls, Built c) (ok : Call.AllSucceed s₀ calls) (path : String) :
    LookupsAgree (Call.runAll s₀ calls) path ∧
      ∀ calls' : List (Call δ), (∀ c ∈ Call.allSchemas calls', Built c) →
        Call.AllSucceed s₀ calls' → Call.allDeclarations calls' = Call.allDeclarations calls →
        ((Call.runAll s₀ calls').lookup path).2 = ((Call.runAll s₀ calls).lookup path).2 ∧
          ((Call.runAll s₀ calls').classify path).2 = ((Call.runAll s₀ calls).classify path).2 := by
  have start : Built s₀ := .compile inside compiled
  have unasked {cs : List (Call δ)} (ok : Call.AllSucceed s₀ cs) :
      (Call.runAll s₀ cs).unasked =
        (Call.runUntilError s₀.unasked (Call.allDeclarations cs)).1 := by
    rw [Call.runUntilError_unasked, Call.runUntilError_of_allSucceed cs s₀ ok]
  refine ⟨(start.runAll built ok).lookupsAgree path, fun calls' built' ok' same => ?_⟩
  refine (start.runAll built ok).same_answers (start.runAll built' ok') ?_ path
  rw [unasked ok, unasked ok', same]

def placeDefinition : Definition MemoryDocument :=
  .object [("town", .object [("name", .literal (.str "String"))])]

def personDefinition : Definition MemoryDocument :=
  .object [("friends", .array [.object [("name", .literal (.str "String"))]])]

/-- Calls that embed a place and declare a virtual. -/
def personCalls (place : Schema MemoryDocument) : List (Call MemoryDocument) :=
  [.declare "home" (.schema place), .virtual "friends_names" [] [] []]

def curiousCalls (place : Schema MemoryDocument) : List (Call MemoryDocument) :=
  [.lookup "friends.0.name", .declare "home" (.schema place), .classify "friends.0.name",
    .virtual "friends_names" [] [] []]

/-- Whether some calls all succeed, none of which makes calls itself. -/
def allRun (s : Schema MemoryDocument) : List (Call MemoryDocument) → Bool
  | [] => true
  | c :: cs => (c.run s).2.toOption.isSome && allRun (c.run s).1 cs

theorem lookups_agree_person : ∃ place person : Schema MemoryDocument,
    Schema.compile {} placeDefinition = .ok place ∧
      Schema.compile {} personDefinition = .ok person ∧ ∀ path,
      LookupsAgree (Call.runAll person (curiousCalls (place.lookup "town.0").1)) path ∧
        ((Call.runAll person (personCalls (place.lookup "town.0").1)).lookup path).2 =
          ((Call.runAll person (curiousCalls (place.lookup "town.0").1)).lookup path).2 := by
  have h : ((Schema.compile {} placeDefinition).toOption.bind fun place =>
      (Schema.compile {} personDefinition).toOption.map fun person =>
        allRun person (curiousCalls (place.lookup "town.0").1) &&
          allRun person (personCalls (place.lookup "town.0").1)) = some true := by decide +kernel
  have succeeds {r : Except SchemaError Unit} (hr : r.toOption.isSome = true) : r = .ok () := by
    cases r with
    | error e => cases hr
    | ok u => rfl
  cases hp : Schema.compile {} placeDefinition with
  | error e => rw [hp] at h; cases h
  | ok place =>
    cases hc : Schema.compile {} personDefinition with
    | error e => rw [hp, hc] at h; cases h
    | ok person =>
      rw [hp, hc] at h
      have h := Option.some.inj h
      simp only [allRun, curiousCalls, personCalls, Bool.and_eq_true] at h
      have built : Built (place.lookup "town.0").1 :=
        .call (.lookup "town.0") (.compile (by simp [placeDefinition, Definition.schemas,
          Definition.fieldSchemas]) hp) (by simp [Call.schemas]) rfl
      have curious : ∀ c ∈ Call.allSchemas (curiousCalls (place.lookup "town.0").1), Built c := by
        simpa [curiousCalls, Call.allSchemas, Call.schemas, Definition.schemas] using built
      have plain : ∀ c ∈ Call.allSchemas (personCalls (place.lookup "town.0").1), Built c := by
        simpa [personCalls, Call.allSchemas, Call.schemas, Definition.schemas] using built
      refine ⟨place, person, rfl, rfl, fun path => ?_⟩
      have agree := lookups_agree (by simp [personDefinition, Definition.schemas,
        Definition.fieldSchemas, Definition.itemSchemas]) hc curious
        ⟨rfl, succeeds h.1.2.1, rfl, succeeds h.1.2.2.2.1, trivial⟩ path
      have same := agree.2 (personCalls (place.lookup "town.0").1) plain
        ⟨succeeds h.2.1, succeeds h.2.2.1, trivial⟩ rfl
      exact ⟨agree.1, same.1⟩

end Schema

end DocSchema
