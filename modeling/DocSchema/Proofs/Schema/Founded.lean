import DocSchema.Schema.Compile

/-!
# What the errors of a definition say

Where a definition cannot be compiled, or a field has no type, the error is that of a name somewhere
inside. Two things can be said of it all the same (`founded_typeAt`). A name that is called reserved
is reserved. And only where `cast` is the type key does a call not return, since a definition that
is resolved by resolving it again is the name of an array whose elements are read from the type key
(`Schema.returns_add`, `Definition.typeAt_of_namesArray`).
-/

namespace DocSchema

variable {δ : Type}

/-- Whether an outcome is that of a call that returns. -/
def Returns {α : Type} (outcome : Except SchemaError α) : Prop :=
  ∀ path, outcome ≠ .error (.endless path)

/-- Whether what an error says is so: a name is reserved, or `cast` is the type key. -/
def SchemaError.IsFounded (typeKey : String) : SchemaError → Prop
  | .reservedName path => Path.isReserved path = true
  | .endless _ => typeKey = "cast"
  | _ => True

namespace Schema

variable {s s' : Schema δ} {typeKey path : String} {d : Definition δ} {e : SchemaError}

theorem founded_place (typeKey : String) (failed : s.place path d = .error e) :
    e.IsFounded typeKey := by
  unfold place at failed
  split at failed
  · next reserved =>
    cases failed
    exact reserved
  · split at failed
    · cases failed
      trivial
    · split at failed
      · cases failed
        trivial
      · cases failed

/-- Whether the error in the place of the type of an entry is founded. -/
def FoundedEntry (typeKey : String) : TypedEntry δ → Prop
  | .field _ _ type => ∀ e, type = .error e → e.IsFounded typeKey
  | _ => True

theorem founded_register {entry : TypedEntry δ} (founded : FoundedEntry typeKey entry)
    (failed : s.register entry = (s', .error e)) : e.IsFounded typeKey := by
  cases entry with
  | missing path =>
    cases failed
    trivial
  | missingItem path =>
    cases failed
    trivial
  | group path =>
    rw [register] at failed
    split at failed
    · cases failed
      trivial
    · cases failed
  | field path d type =>
    rw [register, declareAs] at failed
    cases placed : s.place path d with
    | error e' =>
      rw [placed] at failed
      cases failed
      exact founded_place typeKey placed
    | ok bound =>
      rw [placed] at failed
      cases type with
      | error e' =>
        cases failed
        exact founded e rfl
      | ok t => cases failed

theorem founded_registerAll {entries : List (TypedEntry δ)}
    (founded : ∀ entry ∈ entries, FoundedEntry typeKey entry)
    (failed : s.registerAll entries = (s', .error e)) : e.IsFounded typeKey := by
  induction entries generalizing s with
  | nil => cases failed
  | cons entry entries ih =>
    rw [registerAll] at failed
    rcases turn : s.register entry with ⟨s₁, e' | u⟩
    · rw [turn] at failed
      cases failed
      exact founded_register (founded entry List.mem_cons_self) turn
    · rw [turn] at failed
      apply ih _ failed
      intro other there
      exact founded other (List.mem_cons_of_mem _ there)

/-- Only a name that no type has keeps a record from having a shape. -/
theorem founded_shape {key : String} {record : Table (Definition δ)}
    (failed : Definition.shape key path record = .error e) : e.IsFounded typeKey := by
  unfold Definition.shape at failed
  split at failed
  all_goals try cases failed
  · split at failed
    · cases failed
    · split at failed
      · cases failed
      · cases failed
        trivial
  · trivial

theorem founded_plainTypeAt {key : String} (failed : d.plainTypeAt key path = .error e) :
    e.IsFounded typeKey := by
  unfold Definition.plainTypeAt at failed
  split at failed
  · next run =>
    cases failed
    exact founded_shape run
  · cases failed
  · cases failed

theorem founded_addIdField (failed : s.addIdField = (s', .error e)) : e.IsFounded typeKey := by
  unfold addIdField at failed
  dsimp only at failed
  split at failed
  · apply founded_register _ failed
    intro e failed
    exact founded_plainTypeAt failed
  · cases failed

theorem founded_addStampFields (failed : s.addStampFields = (s', .error e)) :
    e.IsFounded typeKey := by
  unfold addStampFields at failed
  split at failed
  · cases failed
  · apply founded_registerAll _ failed
    intro entry there
    obtain ⟨p, -, rfl⟩ := List.mem_map.1 there
    intro e failed
    exact founded_plainTypeAt failed

theorem founded_virtual {options : Table Json} {v : Except SchemaError Virtual}
    (run : s.virtual path options = (s', v)) (failed : v = .error e) : e.IsFounded typeKey := by
  unfold virtual at run
  split at run
  · cases run
    cases failed
  · split at run
    · cases run
      cases failed
      trivial
    · cases run
      cases failed

theorem founded_addIdVirtual (failed : s.addIdVirtual = (s', .error e)) : e.IsFounded typeKey := by
  unfold addIdVirtual extendVirtual at failed
  split at failed
  · rcases run : s.virtual "id" [] with ⟨s₁, e' | v⟩
    · rw [run] at failed
      cases failed
      exact founded_virtual run rfl
    · rw [run] at failed
      cases failed
  · cases failed

variable [Document δ] {o : Options}

theorem founded_assemble {entries : List (TypedEntry δ)}
    (founded : ∀ entry ∈ entries, FoundedEntry typeKey entry)
    (failed : assemble o entries = .error e) : e.IsFounded typeKey := by
  unfold assemble at failed
  split at failed
  · next run =>
    cases failed
    exact founded_registerAll founded run
  · split at failed
    · next run =>
      cases failed
      exact founded_addIdField run
    · split at failed
      · next run =>
        cases failed
        exact founded_addIdVirtual run
      · split at failed
        · next run =>
          cases failed
          exact founded_addStampFields run
        · cases failed

/-- Where the elements of an array have no kind, they are documents that cannot be compiled, or have
no type. -/
theorem arrayKind_error {x : Definition δ} (failed : Definition.arrayKind o path x = .error e) :
    compile o.forChild x = .error e ∨ x.typeAt o path = .error e := by
  unfold Definition.arrayKind at failed
  split at failed
  · cases failed
  · split at failed
    · left
      cases compiled : compile o.forChild x with
      | ok child =>
        rw [compiled] at failed
        cases failed
      | error e' =>
        rw [compiled] at failed
        cases failed
        rfl
    · right
      cases typed : x.typeAt o path with
      | ok t =>
        rw [typed] at failed
        cases failed
      | error e' =>
        rw [typed] at failed
        cases failed
        rfl

-- The three go round as `compile` and `typeAt` do, along smaller definitions.
mutual

/-- The entries of a definition are founded. -/
theorem founded_entries (o : Options) (fields : Table (Definition δ)) (front : String) :
    ∀ entry ∈ (Definition.entries o.typeKey front fields).map
      (Entry.withType fun p x => x.typeAt o p), FoundedEntry o.typeKey entry := by
  intro entry there
  obtain ⟨entry', there', rfl⟩ := List.mem_map.1 there
  cases entry' with
  | missing p => trivial
  | missingItem p => trivial
  | group p => trivial
  | field p x u =>
    have smaller := Definition.sizeOf_lt_of_mem_entries fields there'
    intro e failed
    exact founded_typeAt o p x failed
termination_by (sizeOf fields, 0)

/-- Where a definition has no type, the error is founded. -/
theorem founded_typeAt (o : Options) (path : String) (d : Definition δ) {e : SchemaError}
    (failed : d.typeAt o path = .error e) : e.IsFounded o.typeKey := by
  rw [Definition.typeAt_eq] at failed
  split at failed
  · next run =>
    cases failed
    exact founded_shape run
  · cases failed
  · cases failed
  · next x run =>
    cases kind : Definition.arrayKind o path x with
    | ok kind' =>
      rw [kind] at failed
      cases failed
    | error e' =>
      rw [kind] at failed
      cases failed
      cases ends : x.isCircular o.typeKey with
      | true =>
        cases (Definition.arrayKind_of_isCircular ends path).symm.trans kind
        exact (Definition.isCircular_iff.1 ends).1
      | false =>
        have smaller := Definition.sizeOf_lt_of_shape_record run ends
        rcases arrayKind_error kind with compiled | typed
        · exact founded_compile o.forChild x compiled
        · exact founded_typeAt o path x typed
termination_by (sizeOf d, 0)

/-- So it is where a definition cannot be compiled. -/
theorem founded_compile (o : Options) (d : Definition δ) {e : SchemaError}
    (failed : compile o d = .error e) : e.IsFounded o.typeKey := by
  unfold compile at failed
  split at failed
  · next fields => exact founded_assemble (founded_entries o fields "") failed
  · exact founded_assemble (fun entry none => absurd none List.not_mem_nil) failed
  · cases failed
    trivial
termination_by (sizeOf d, 1)

end

end Schema

/-! ### Calls that return -/

/-- But for one type key, adding a definition is always done with in the end. -/
theorem Schema.returns_add [Document δ] {s : Schema δ} (other : s.options.typeKey ≠ "cast")
    (d : Definition δ) (front : String) : Returns (s.add d front).2 := by
  intro path endless
  cases d with
  | object fields =>
    have run : s.registerAll ((Definition.entries s.options.typeKey front fields).map
        (Entry.withType fun p x => x.typeAt s.options p)) = ((s.add (.object fields) front).1,
          .error (.endless path)) := Prod.ext rfl endless
    exact other (founded_registerAll (founded_entries s.options fields front) run)
  | _ => cases endless

namespace Definition

variable [Document δ] {o : Options} {path : String}

/-- With this type key, a record whose type is the name of an array is never done with: what it says
about the elements of the array is that name. -/
theorem typeAt_of_namesArray (isCast : o.typeKey = "cast") {d named : Definition δ}
    (stated : statedType? (d.record o.typeKey) o.typeKey = some named)
    (array : named.namesArray = true) : d.typeAt o path = .error (.endless path) := by
  have circular : named.isCircular o.typeKey = true := isCircular_iff.2 ⟨isCast, array⟩
  rw [typeAt_eq, shape_of_isCircular circular stated path]
  dsimp only
  rw [arrayKind_of_isCircular circular path]
  rfl

end Definition

end DocSchema
