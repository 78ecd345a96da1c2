import DocSchema.Proofs.Outcomes
import DocSchema.Proofs.Schema.Founded
import DocSchema.Proofs.Schema.Lookups
import DocSchema.Proofs.Tree.Binding

/-!
# Fields that are refused

A field is refused at one of four points: its path is reserved, or it stands for something else, or
a field or a virtual lies above it, or the definition has no type. Whichever it is, nothing but the
tree changes, and the tree changes at the last point only, where the path is bound already
(`refused_declare`).

The last point is the one where anything may go wrong, since the elements of an array are compiled
on the way. Still, no error from there calls a path reserved that got past the first point
(`founded_typeAt`).
-/

namespace DocSchema

variable {δ : Type}

namespace Schema

variable {s s' : Schema δ} {path : String} {d : Definition δ} {e : SchemaError}

/-! ### Paths that are not free -/

/-- A path that is taken is a group, a virtual, or something other than a field in the tree. -/
theorem taken_cases (taken : s.isTaken path = true) :
    path ∈ s.groups ∨ Table.contains s.virtuals path = true ∨
      ∃ x, Tree.get? (Path.segments path) s.tree = some x ∧ ∀ d, x ≠ .field d := by
  unfold isTaken at taken
  rw [Bool.or_eq_true, Bool.or_eq_true, List.contains_iff_mem] at taken
  rcases taken with (group | virtual) | node
  · exact .inl group
  · exact .inr (.inl virtual)
  · right
    right
    split at node
    · next children there => exact ⟨_, there, by intro d; simp⟩
    · next there => exact ⟨_, there, by intro d; simp⟩
    · cases node

/-- Why a path is not free for a field, with the error that says so. -/
inductive NotFree (s : Schema δ) (path : String) : SchemaError → Prop where
  /-- Documents give the path a meaning of their own. -/
  | reserved (reserved : Path.isReserved path = true) : NotFree s path (.reservedName path)
  /-- The path stands for something that a field cannot replace. -/
  | taken (taken : path ∈ s.groups ∨ Table.contains s.virtuals path = true ∨
        ∃ x, Tree.get? (Path.segments path) s.tree = some x ∧ ∀ d, x ≠ .field d) :
      NotFree s path (s.conflict path path)
  /-- A field or a virtual lies above the path. -/
  | blocked {a : String} {x : Tree (Definition δ)} (above : Path.isBelow a path = true)
      (there : Tree.get? (Path.segments a) s.tree = some x) (leaf : x.isBranch = false) :
      NotFree s path (s.conflict path a)

theorem notFree_of_place (failed : s.place path d = .error e) : NotFree s path e := by
  unfold place at failed
  split at failed
  · next reserved =>
    cases failed
    exact .reserved reserved
  · split at failed
    · next taken =>
      cases failed
      exact .taken (taken_cases taken)
    · split at failed
      · next blocking run =>
        cases failed
        obtain ⟨⟨x, there, leaf⟩, rest, some_rest, split⟩ := Tree.insertField_blocked run
        have some_name : blocking ≠ [] := by
          rintro rfl
          cases there
        -- the segments that block are those of a name
        have names : Path.segments (Path.join blocking) = blocking := by
          apply Path.segments_join blocking some_name
          intro n hn
          have in_path : n ∈ Path.segments path := by
            rw [← split]
            exact List.mem_append_left rest hn
          exact Path.not_mem_of_mem_segments in_path
        refine .blocked ?_ (by rw [names]; exact there) leaf
        exact Path.isBelow_iff_segments.2 ⟨rest, some_rest, by rw [names, split]⟩
      · cases failed

/-- A path where a field can be placed is free. -/
theorem not_notFree_of_place (placed : s.place path d = .ok s') : ¬ NotFree s path e := by
  obtain ⟨allowed, free, tree, inserted, rfl⟩ := place_ok placed
  obtain ⟨no_group, no_virtual, field⟩ := not_taken free
  intro h
  cases h with
  | reserved reserved =>
    rw [allowed] at reserved
    cases reserved
  | taken taken =>
    rcases taken with group | virtual | ⟨x, there, other⟩
    · exact no_group group
    · rw [no_virtual] at virtual
      cases virtual
    · obtain ⟨d', isField⟩ := field x there
      exact other d' isField
  | blocked above there leaf =>
    obtain ⟨rest, some_rest, split⟩ := Path.isBelow_iff_segments.1 above
    have way := Tree.insertField_placed (Path.segments_ne_nil path) inserted
    rcases way.was_open _ rest (Path.segments_ne_nil _) some_rest split.symm with none | ⟨_, branch⟩
    · rw [none] at there
      cases there
    · rw [branch] at there
      cases there
      cases leaf

variable [Document δ]

/-! ### What is left behind -/

/-- Why a field is refused, and what becomes of the tree. -/
inductive Refusal (s : Schema δ) (path : String) (d : Definition δ) :
    SchemaError → Table (Tree (Definition δ)) → Prop where
  /-- The path is not free. The tree stays as it was. -/
  | notFree {e : SchemaError} (cause : NotFree s path e) : Refusal s path d e s.tree
  /-- The path is free, but the definition has no type. The path is bound to it, and nothing else
  happens to the tree. -/
  | unresolved {e : SchemaError} {tree : Table (Tree (Definition δ))}
      (free : ∀ e', ¬ NotFree s path e') (cause : d.typeAt s.options path = .error e)
      (bound : Tree.Bound (Path.segments path) (.field d) s.tree tree) : Refusal s path d e tree

/-- What a schema is after a field was refused. -/
structure Refused (path : String) (d : Definition δ) (s s' : Schema δ) (e : SchemaError) :
    Prop where
  /-- Nothing but the tree changes. -/
  rest : s' = { s with tree := s'.tree }
  tree : Refusal s path d e s'.tree
  /-- The path itself is called reserved where it is, and then nothing changes at all. -/
  reserved : e = .reservedName path ↔ Path.isReserved path = true
  unchanged : e = .reservedName path → s' = s

/-- A field that is refused leaves the schema as it was, but for the tree, and the tree too, unless
the definition has no type. -/
theorem refused_declare (refused : s.declare path d = (s', .error e)) : Refused path d s s' e := by
  rw [declare, declareAs] at refused
  cases placed : s.place path d with
  | error e' =>
    rw [placed] at refused
    cases refused
    have cause := notFree_of_place placed
    refine ⟨by cases s; rfl, .notFree cause, ⟨?_, ?_⟩, fun _ => rfl⟩
    · rintro rfl
      exact founded_place s.options.typeKey placed
    · intro reserved
      rw [place, if_pos reserved] at placed
      exact (Except.error.inj placed).symm
  | ok bound =>
    have open_path : ∀ e', ¬ NotFree s path e' := fun e' => not_notFree_of_place placed
    obtain ⟨allowed, free, tree, inserted, rfl⟩ := place_ok placed
    rw [placed] at refused
    cases typed : d.typeAt s.options path with
    | ok t =>
      rw [typed] at refused
      cases refused
    | error e' =>
      rw [typed] at refused
      cases refused
      -- a path that was placed is not reserved, so no founded error says so
      have other : e ≠ .reservedName path := by
        rintro rfl
        have founded : Path.isReserved path = true := founded_typeAt s.options path d typed
        rw [allowed] at founded
        cases founded
      refine ⟨rfl, .unresolved open_path typed ?_, ⟨fun same => absurd same other, ?_⟩,
        fun same => absurd same other⟩
      · apply Tree.insertField_bound (Path.segments_ne_nil path) inserted
        intro inner branch
        obtain ⟨d', isField⟩ := (not_taken free).2.2 _ branch
        cases isField
      · intro reserved
        rw [allowed] at reserved
        cases reserved

/-- Places of which none can be compiled, since their names are those of a document. -/
def savingPlaces : Definition MemoryDocument :=
  .array [.object [("town", .literal (.str "String")), ("save", .literal (.str "Boolean"))]]

/-- A person who was asked for a friend gets no places below the visits. -/
theorem refused_declare_places : ∃ person s' : Schema MemoryDocument,
    compile {} personDefinition = .ok person ∧
      Refused "visits.places" savingPlaces (Call.runAll person [.classify "friends.0.name"]) s'
        (.reservedName "save") := by
  have h : ((compile {} personDefinition).toOption.any fun person =>
      failsWith (.reservedName "save")
        ((Call.runAll person [.classify "friends.0.name"]).declare "visits.places"
          savingPlaces).2) = true := by
    decide +kernel
  obtain ⟨person, compiled, h⟩ := exists_ok_of_any h
  exact ⟨person, _, compiled, refused_declare (Prod.ext rfl (eq_error_of_failsWith h))⟩

end Schema

end DocSchema
