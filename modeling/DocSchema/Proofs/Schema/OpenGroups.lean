import DocSchema.Document.Memory
import DocSchema.Proofs.Outcomes
import DocSchema.Proofs.Schema.Groups
import DocSchema.Proofs.Schema.History
import DocSchema.Proofs.Schema.Names

/-!
# Groups that a failure leaves open

An object that is added opens a group before the fields of the group are declared. Where one of
these is refused, the call ends and the group stays, be there a field below it or not. So a group
has a field below it, or it was opened by a call that failed at an entry below it
(`group_filled_or_stopped`), whatever else was called before and after.

The argument goes entry by entry: right behind a group among the entries comes an entry below it
(`GroupsFollowed`), so the group is filled by the first entry behind it that is no group, unless
something fails on the way.
-/

namespace DocSchema

variable {δ τ : Type}

/-! ### What follows a group among the entries of a definition -/

/-- Whether every group among some entries is directly followed by an entry below it. -/
def GroupsFollowed : List (Entry δ τ) → Prop
  | [] => True
  | e :: es =>
    (e.isLeaf = false → ∃ next ∈ es.head?, Path.isBelow e.path next.path = true) ∧
      GroupsFollowed es

namespace GroupsFollowed

theorem singleton {e : Entry δ τ} (leaf : e.isLeaf = true) : GroupsFollowed [e] := by
  refine ⟨fun group => ?_, trivial⟩
  rw [leaf] at group
  cases group

theorem append {es es' : List (Entry δ τ)} (h : GroupsFollowed es) (h' : GroupsFollowed es') :
    GroupsFollowed (es ++ es') := by
  induction es with
  | nil => exact h'
  | cons e es ih =>
    refine ⟨fun group => ?_, ih h.2⟩
    obtain ⟨next, hn, hb⟩ := h.1 group
    refine ⟨next, ?_, hb⟩
    show next ∈ (es ++ es').head?
    rw [List.head?_append, Option.mem_def.1 hn]
    rfl

theorem withType {es : List (Entry δ Unit)} (h : GroupsFollowed es)
    (type : String → Definition δ → τ) : GroupsFollowed (es.map (Entry.withType type)) := by
  induction es with
  | nil => trivial
  | cons e es ih =>
    refine ⟨fun group => ?_, ih h.2⟩
    rw [Entry.isLeaf_withType] at group
    obtain ⟨next, hn, hb⟩ := h.1 group
    refine ⟨next.withType type, ?_, ?_⟩
    · rw [List.head?_map, Option.mem_def.1 hn]
      rfl
    · simpa using hb

end GroupsFollowed

namespace Definition

/-- The entries of a definition begin at its own path. -/
theorem head_entriesAt (typeKey path : String) (d : Definition δ) :
    ∃ e ∈ (entriesAt typeKey path d).head?, e.path = path := by
  unfold entriesAt
  split
  · exact ⟨_, rfl, rfl⟩
  · exact ⟨_, rfl, rfl⟩
  · exact ⟨_, rfl, rfl⟩
  · split <;> exact ⟨_, rfl, rfl⟩
  · exact ⟨_, rfl, rfl⟩

theorem groupsFollowed_of_leaf {typeKey : String} (path : String) {d : Definition δ}
    (h : ∀ f fs, d ≠ .object (f :: fs)) : GroupsFollowed (entriesAt typeKey path d) := by
  obtain ⟨e, he, hl, -⟩ := entriesAt_leaf typeKey path h
  rw [he]
  exact .singleton hl

mutual

theorem groupsFollowed_entriesAt {typeKey : String} (path : String) :
    ∀ d : Definition δ, GroupsFollowed (entriesAt typeKey path d)
  | .object ((key, d) :: fs) => by
    have inner : GroupsFollowed (entries typeKey (path ++ ".") ((key, d) :: fs)) :=
      groupsFollowed_entries (path ++ ".") ((key, d) :: fs)
    rw [entriesAt]
    split
    · refine ⟨fun _ => ?_, inner⟩
      obtain ⟨e, he, hp⟩ := head_entriesAt typeKey (Path.below path key) d
      refine ⟨e, ?_, ?_⟩
      · rw [entries, List.head?_append]
        show (entriesAt typeKey (Path.below path key) d).head?.or _ = some e
        rw [Option.mem_def.1 he, Option.some_or]
      · rw [hp]
        exact Path.isBelow_below path key
    · exact .singleton rfl
  | .object [] => .singleton rfl
  | .literal v => groupsFollowed_of_leaf path (d := .literal v) (by simp)
  | .array items => groupsFollowed_of_leaf path (d := .array items) (by simp)
  | .type t => groupsFollowed_of_leaf path (d := .type t) (by simp)
  | .schema s => groupsFollowed_of_leaf path (d := .schema s) (by simp)

/-- Behind every group among the entries of a definition comes what the group holds first. -/
theorem groupsFollowed_entries {typeKey : String} (front : String) :
    ∀ fields : List (String × Definition δ), GroupsFollowed (entries typeKey front fields)
  | [] => trivial
  | (key, d) :: rest => by
    rw [entries]
    exact (groupsFollowed_entriesAt (front ++ key) d).append (groupsFollowed_entries front rest)

end

end Definition

namespace Schema

variable {s s' : Schema δ} {es : List (TypedEntry δ)} {g : String}

/-! ### Entries that are declared in order -/

def HasFieldBelow (s : Schema δ) (g : String) : Prop :=
  ∃ p, Table.contains s.fields p = true ∧ Path.isBelow g p = true

theorem HasFieldBelow.mono (h : HasFieldBelow s g)
    (kept : ∀ p, Table.contains s.fields p = true → Table.contains s'.fields p = true) :
    HasFieldBelow s' g := by
  obtain ⟨p, hp, hb⟩ := h
  exact ⟨p, kept p hp, hb⟩

/-- Whether an entry below a path is refused where entries are declared in order. -/
def StopsBelow (s : Schema δ) (es : List (TypedEntry δ)) (g : String) : Prop :=
  ∃ t ∈ s.turns es, t.Fails ∧ Path.isBelow g t.2.path = true

theorem StopsBelow.cons {e : TypedEntry δ} (run : s.register e = (s', .ok ()))
    (h : StopsBelow s' es g) : StopsBelow s (e :: es) g := by
  obtain ⟨t, ht, stopped⟩ := h
  rw [StopsBelow, turns_of_ok run]
  exact ⟨t, List.mem_cons_of_mem _ ht, stopped⟩

/-- A group that is there once an entry is declared was there before, or the entry opened it. -/
theorem mem_groups_of_register {e : TypedEntry δ} {r : Except SchemaError Unit}
    (run : s.register e = (s', r)) (hg : g ∈ s'.groups) :
    g ∈ s.groups ∨ e = .group g ∧ r = .ok () := by
  have now : g ∈ (s.register e).1.groups := by rwa [run]
  obtain before | rfl := mem_groups_register now
  · exact .inl before
  · rw [register] at run
    split at run
    · cases run
      exact .inl hg
    · cases run
      exact .inr ⟨rfl, rfl⟩

/-- What the next entry lies below is filled, unless an entry below it is refused. -/
theorem filled_or_stops (followed : GroupsFollowed es)
    (next : ∃ e ∈ es.head?, Path.isBelow g e.path = true) :
    HasFieldBelow (s.registerAll es).1 g ∨ StopsBelow s es g := by
  induction es generalizing s with
  | nil =>
    obtain ⟨e, he, -⟩ := next
    cases he
  | cons e es ih =>
    obtain ⟨_, he, below⟩ := next
    cases he
    rcases run : s.register e with ⟨s', err | u⟩
    · right
      refine ⟨(s, e), ?_, ?_, below⟩
      · rw [turns_of_error run]
        exact List.mem_singleton.2 rfl
      · show (s.register e).2 ≠ .ok ()
        rw [run]
        simp
    · rw [registerAll_of_ok run]
      cases leaf : e.isLeaf with
      | true =>
        -- the entry is a field from now on
        have stored := contains_of_register_ok (s := s) leaf (by rw [run])
        rw [run] at stored
        exact .inl ⟨e.path, contains_registerAll es stored, below⟩
      | false =>
        obtain ⟨e', he', below'⟩ := followed.1 leaf
        exact (ih followed.2 ⟨e', he', Path.isBelow_trans below below'⟩).imp_right (.cons run)

/-- A group that is there once entries were declared was there before, or one of them opened it.
Then it is filled, unless an entry below it is refused. -/
theorem opened_registerAll (followed : GroupsFollowed es) (hg : g ∈ (s.registerAll es).1.groups) :
    g ∈ s.groups ∨ HasFieldBelow (s.registerAll es).1 g ∨
      (∃ t ∈ s.turns es, t.2 = .group g) ∧ StopsBelow s es g := by
  induction es generalizing s with
  | nil => exact .inl hg
  | cons e es ih =>
    rcases run : s.register e with ⟨s', err | u⟩
    · rw [registerAll_of_error run] at hg
      obtain before | ⟨-, ok⟩ := mem_groups_of_register run hg
      · exact .inl before
      · cases ok
    · rw [registerAll_of_ok run] at hg ⊢
      have turns : s.turns (e :: es) = (s, e) :: s'.turns es := turns_of_ok run
      rcases ih followed.2 hg with earlier | filled | ⟨⟨t, ht, opened⟩, stops⟩
      · obtain before | ⟨rfl, -⟩ := mem_groups_of_register run earlier
        · exact .inl before
        · refine .inr ((filled_or_stops followed.2 (followed.1 rfl)).imp_right fun stops => ?_)
          refine ⟨⟨(s, .group g), ?_, rfl⟩, stops.cons run⟩
          rw [turns]
          exact List.mem_cons_self
      · exact .inr (.inl filled)
      · refine .inr (.inr ⟨⟨t, ?_, opened⟩, stops.cons run⟩)
        rw [turns]
        exact List.mem_cons_of_mem _ ht

variable [Document δ]

/-! ### Calls -/

/-- Whether a call opened a group and failed at an entry below it. -/
structure LeftOpenBy (g : String) (s : Schema δ) (c : Call δ) : Prop where
  opened : ∃ t ∈ c.turns s, t.2 = .group g
  refused : ∃ t ∈ c.turns s, t.Fails ∧ Path.isBelow g t.2.path = true
  failed : (c.run s).2 ≠ .ok ()

/-- Whether one of some calls opened a group and failed at an entry below it. -/
def LeftOpen (past : List (Schema δ × Call δ)) (g : String) : Prop :=
  ∃ e ∈ past, LeftOpenBy g e.1 e.2

theorem LeftOpen.append {past : List (Schema δ × Call δ)} (h : LeftOpen past g)
    (later : List (Schema δ × Call δ)) : LeftOpen (past ++ later) g := by
  obtain ⟨e, he, left⟩ := h
  exact ⟨e, List.mem_append_left _ he, left⟩

/-- A group that is there once an object was added was there before or is filled, or the call
leaves it open. -/
theorem opened_add (d : Definition δ) (front : String) (hg : g ∈ (s.add d front).1.groups) :
    g ∈ s.groups ∨ HasFieldBelow (s.add d front).1 g ∨ LeftOpenBy g s (.add d front) := by
  unfold add at hg ⊢
  split at hg
  · next fields =>
    have followed : GroupsFollowed (s.typedEntries front fields) :=
      (Definition.groupsFollowed_entries front fields).withType _
    obtain before | filled | ⟨opened, stops⟩ := opened_registerAll followed hg
    · exact .inl before
    · exact .inr (.inl filled)
    · refine .inr (.inr ⟨opened, stops, fun ok => ?_⟩)
      obtain ⟨t, ht, fails, -⟩ := stops
      exact registerAll_ok_iff.1 ok t ht fails
  · exact .inl hg

theorem contains_add {p : String} (d : Definition δ) (front : String)
    (hp : Table.contains s.fields p = true) : Table.contains (s.add d front).1.fields p = true := by
  unfold add
  split
  · exact contains_registerAll _ hp
  · exact hp

/-- Whether every group has a field below it or was left open by a call. -/
def FilledOrLeft (past : List (Schema δ × Call δ)) (s : Schema δ) : Prop :=
  ∀ g ∈ s.groups, HasFieldBelow s g ∨ LeftOpen past g

namespace FilledOrLeft

variable {past : List (Schema δ × Call δ)} {c : Call δ}

/-- What opens no group and loses no field leaves the groups as they are. -/
theorem keep (h : FilledOrLeft past s) (later : List (Schema δ × Call δ))
    (groups : s'.groups = s.groups)
    (kept : ∀ p, Table.contains s.fields p = true → Table.contains s'.fields p = true) :
    FilledOrLeft (past ++ later) s' := by
  intro g hg
  rw [groups] at hg
  exact (h g hg).imp (fun filled => filled.mono kept) fun left => left.append later

theorem add (h : FilledOrLeft past s) (d : Definition δ) (front : String) :
    FilledOrLeft (past ++ [(s, .add d front)]) (s.add d front).1 := by
  intro g hg
  obtain before | filled | left := opened_add d front hg
  · exact (h g before).imp (fun filled => filled.mono fun p => contains_add d front)
      fun left => left.append _
  · exact .inl filled
  · exact .inr ⟨_, List.mem_append_right _ (List.mem_singleton.2 rfl), left⟩

theorem extendVirtual (h : FilledOrLeft past s) (later : List (Schema δ × Call δ)) (path : String)
    (options : Table Json) (getters : List Getter) (setters : List Setter) :
    FilledOrLeft (past ++ later) (s.extendVirtual path options getters setters).1 := by
  unfold Schema.extendVirtual virtual
  cases Table.get? s.virtuals path with
  | some v => exact h.keep later rfl fun _ => id
  | none =>
    cases Tree.insertVirtual (Path.segments path) s.tree with
    | error blocking => exact h.keep later rfl fun _ => id
    | ok tree => exact h.keep later rfl fun _ => id

/-- A call that adds an object may leave groups open, and no other call opens any. -/
theorem run (plain : c.IsPlain) (h : FilledOrLeft past s) :
    FilledOrLeft (past ++ [(s, c)]) (c.run s).1 := by
  cases plain.names s with
  | add d front => exact h.add d front
  | declare path d =>
    exact h.keep _ (groups_declareAs s path d _) fun p => contains_declareAs path d _
  | virtual path options getters setters => exact h.extendVirtual _ path options getters setters
  | other same => exact h.keep _ same.groups fun p hp => by rwa [same.fields]

end FilledOrLeft

/-- Whatever calls are made on a compiled schema, in whatever order and whether they fail or not, a
group with a field below it is no virtual, and a group without one was opened by a call that failed
at an entry below it. -/
theorem group_filled_or_left {o : Options} {d : Definition δ} {s₀ : Schema δ}
    (compiled : Schema.compile o d = .ok s₀) (calls : List (Call δ)) :
    ∀ g ∈ (Call.runAll s₀ calls).groups,
      (HasFieldBelow (Call.runAll s₀ calls) g ∧
          Table.contains (Call.runAll s₀ calls).virtuals g = false) ∨
        (¬ HasFieldBelow (Call.runAll s₀ calls) g ∧ LeftOpen (Call.historyAll s₀ calls) g) := by
  intro g hg
  have start : FilledOrLeft [] s₀ := fun g hg => .inl (groupsFilled_of_compile compiled g hg)
  have reached : FilledOrLeft (Call.historyAll s₀ calls) (Call.runAll s₀ calls) :=
    Call.runAll_induct (fun _ _ _ plain h => h.run plain) calls [] s₀ start
  have coherent : Coherent (Call.runAll s₀ calls) :=
    .steps (Call.steps_compile_runAll compiled calls) (.empty o)
  by_cases filled : HasFieldBelow (Call.runAll s₀ calls) g
  · refine .inl ⟨filled, ?_⟩
    -- the field would lie below a virtual
    obtain ⟨p, hp, below⟩ := filled
    rw [Bool.eq_false_iff]
    intro virtual
    rw [coherent.not_below (.inr virtual) (.inl hp)] at below
    cases below
  · exact .inr ⟨filled, (reached g hg).resolve_left filled⟩

theorem group_filled_or_left_sample :
    ∃ s₀, Schema.compile {} sampleDefinition = .ok s₀ ∧
      ∀ g ∈ (Call.runAll s₀ sampleCalls).groups,
        (HasFieldBelow (Call.runAll s₀ sampleCalls) g ∧
            Table.contains (Call.runAll s₀ sampleCalls).virtuals g = false) ∨
          (¬ HasFieldBelow (Call.runAll s₀ sampleCalls) g ∧
            LeftOpen (Call.historyAll s₀ sampleCalls) g) := by
  have h : ((Schema.compile {} sampleDefinition).toOption.any fun _ => true) = true := by
    decide +kernel
  obtain ⟨s₀, compiled, -⟩ := exists_ok_of_any h
  exact ⟨s₀, compiled, group_filled_or_left compiled sampleCalls⟩

def refusedGroup : Call MemoryDocument :=
  .add (.object [("address", .object [("street", .literal .null)])]) ""

/-- The group stays, and there is no field below it. -/
theorem group_left_open :
    ∃ s₀ : Schema MemoryDocument, Schema.compile {} (.object []) = .ok s₀ ∧
      "address" ∈ (Call.runAll s₀ [refusedGroup]).groups ∧
        ¬ HasFieldBelow (Call.runAll s₀ [refusedGroup]) "address" := by
  have h : ((Schema.compile {} (.object [] : Definition MemoryDocument)).toOption.any fun s₀ =>
      (Call.runAll s₀ [refusedGroup]).groups.contains "address" &&
        (Table.keys (Call.runAll s₀ [refusedGroup]).fields).all fun p =>
          !Path.isBelow "address" p) = true := by
    decide +kernel
  obtain ⟨s₀, compiled, h⟩ := exists_ok_of_any h
  obtain ⟨there, noField⟩ := (Bool.and_eq_true _ _).mp h
  refine ⟨s₀, compiled, List.contains_iff_mem.1 there, ?_⟩
  rintro ⟨p, hp, below⟩
  have away := List.all_eq_true.1 noField p ((Table.contains_iff_mem_keys _ _).1 hp)
  rw [below] at away
  cases away

end Schema

end DocSchema
