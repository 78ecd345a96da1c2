import DocSchema.Proofs.Schema.Reordering

/-!
# Reading compiled trees back

What is compiled from simple definitions can be told from the tree it is shown as: schemas that are
shown alike, up to the order of keys, have the same fields, of the same kinds, and the same indexes
(`Schema.agrees_of_treeJson`).

Nothing else is shown as a virtual is, since the mark of a virtual is no type
(`Mirrors.eq_virtual`). A branch that is no group leads to the name of a time, and in that place
every schema with the same options has a branch (`readable_compile`).
-/

namespace DocSchema

open Definition

variable {δ : Type} {o : Options} {d d' : Definition δ}
  {fields fields' : List (String × Definition δ)} {s s' : Schema δ}

/-- Two schemas with the same fields, of the same kinds at every depth, and with the same indexes,
in whatever order. -/
structure Schema.Agrees (s s' : Schema δ) : Prop where
  compatible : s.Compatible s'
  indexes : (s.indexes.map IndexEntry.content).Perm (s'.indexes.map IndexEntry.content)

variable [Document δ]

/-! ### Virtuals -/

/-- The fields of an object that is shown as a virtual is. -/
def markFields : List (String × Definition δ) := [("$virtual", .literal (.bool true))]

/-- What is said to have a truth value for its type makes no field. -/
theorem typeAt_ne_of_bool {b : Bool} {path : String} {t : FieldType δ}
    (stated : statedType? (d.record o.typeKey) o.typeKey = some (.literal (.bool b))) :
    d.typeAt o path ≠ .ok t := by
  intro typed
  obtain ⟨shape₁, hs⟩ := exists_shape_of_typeAt typed
  rw [shape, stated] at hs
  cases hs

/-- No field is shown as a truth value. -/
theorem Mirrors.form_ne_true {Q : Definition δ → Prop} (h : Mirrors o Q s) {names : List String}
    (hd : Tree.get? names s.tree = some (.field d)) : d.form ≠ .bool true := by
  intro shown
  obtain ⟨-, path, t, -, -, typed⟩ := h.node hd
  obtain rfl := eq_bool_of_form shown
  refine typeAt_ne_of_bool (b := true) (statedType?_of_get? ?_ rfl) typed
  simp [record, Table.get?]

/-- No field is shown as a virtual is. The object of such a field would be a group, or have a truth
value for its type. -/
theorem Mirrors.form_ne_mark (h : Mirrors o (Leaf o.typeKey) s) {names : List String}
    (hd : Tree.get? names s.tree = some (.field d)) : d.form ≠ virtualMark.sorted := by
  intro mark
  obtain ⟨leaf, path, t, -, -, typed⟩ := h.node hd
  obtain ⟨fields, rfl⟩ := object_of_form mark (legible_of_typeAt typed).not_bare leaf.neat.schemas
  have same : (object fields).form = (object markFields : Definition δ).form := mark
  have inside := fields_form same leaf.neat.1 (List.nodup_singleton _)
  have nonempty : fields ≠ [] := by
    rintro rfl
    cases inside "$virtual"
  obtain ⟨x, stated⟩ := exists_statedType? leaf.not_inline nonempty
  have here := inside o.typeKey
  rw [get?_of_statedType? stated] at here
  by_cases hk : "$virtual" = o.typeKey
  · have shown : x.form = (.literal (.bool true) : Definition δ).form := by
      simpa [markFields, Table.get?, hk] using here
    obtain rfl := eq_bool_of_form shown
    have whole : unwrapped o.typeKey fields = fields := unwrapped_of_not_object fun inner hi => by
      cases stated.symm.trans hi
    exact typeAt_ne_of_bool (by rw [record, whole, stated]) typed
  · simp [markFields, Table.get?, hk] at here

/-- What is shown as a virtual is one. -/
theorem Mirrors.eq_virtual (h : Mirrors o (Leaf o.typeKey) s) {names : List String}
    {x : Tree (Definition δ)} (hx : Tree.get? names s.tree = some x)
    (mark : nodeForm x = virtualMark.sorted) : x = .virtual := by
  have given : names ≠ [] := by
    rintro rfl
    cases hx
  cases x with
  | virtual => rfl
  | field d => exact absurd mark (h.form_ne_mark hx)
  | branch children =>
    -- the branch would hold a field that is shown as a truth value
    have sound := h.sound.get? hx
    have same : nodeForm (.branch children) = (object markFields : Definition δ).form := mark
    have inside := children_form_fields same sound.root.distinct (List.nodup_singleton _) "$virtual"
    obtain ⟨y, hy, shown⟩ := Option.map_eq_some_iff.1 inside
    cases y with
    | branch children => cases shown
    | virtual => cases shown
    | field d =>
      have place : Tree.get? (names ++ ["$virtual"]) s.tree = some (.field d) := by
        rw [Tree.get?_append names _ s.tree given (by simp), hx]
        exact hy
      exact absurd shown (h.form_ne_true place)

/-! ### Trees -/

/-- What is compiled from a simple object can be read back beside another such tree. -/
theorem readable_compile (simple : Simple (object fields)) (simple' : Simple (object fields'))
    (run : Schema.compile o (object fields) = .ok s)
    (run' : Schema.compile o (object fields') = .ok s') : Readable o.typeKey s.tree s'.tree := by
  have mirrors := Mirrors.compile simple run
  have mirrors' := Mirrors.compile simple' run'
  refine ⟨mirrors.sound, fun {names d} hd => ?_, fun {names inner} hn hi => ?_,
    fun _ hx' mark => mirrors'.eq_virtual hx' mark⟩
  · obtain ⟨leaf, path, t, -, -, typed⟩ := mirrors.node hd
    exact ⟨leaf.neat, (legible_of_typeAt typed).not_bare, leaf.not_inline⟩
  · refine (Grouped.compile simple.plainKeys run names inner hn hi).symm.imp_left ?_
    rintro ⟨created, updated, path, rest, times, either, hr, he⟩
    rw [Schema.compile_object] at run'
    obtain ⟨knownCreated, knownUpdated⟩ := Schema.times_assemble run' times
    have known : Table.contains s'.fields path = true := by
      rcases either with rfl | rfl
      · exact knownCreated
      · exact knownUpdated
    obtain ⟨d, hd⟩ := mirrors'.coherent.field_node known
    exact Tree.branch_of_get?_append hn hr (he ▸ hd)

/-- A definition that compiles is an object, or stands for an empty one. -/
theorem exists_object_of_compile (simple : Simple d) (compiled : Schema.compile o d = .ok s) :
    ∃ fields, Simple (object fields) ∧ Schema.compile o (object fields) = .ok s := by
  match d with
  | .object fields => exact ⟨fields, simple, compiled⟩
  | .literal .null => exact ⟨[], ⟨rfl, by simp [toJson, fieldsJson, Json.Tidy, Json.TidyFields,
      Table.keys]⟩, compiled⟩

/-- Schemas that were compiled from simple definitions and are shown alike agree. -/
theorem Schema.agrees_of_treeJson (simple : Simple d) (simple' : Simple d')
    (compiled : Schema.compile o d = .ok s) (compiled' : Schema.compile o d' = .ok s')
    (same : s.treeJson.sorted = s'.treeJson.sorted) : s.Agrees s' := by
  obtain ⟨fields, simple, compiled⟩ := exists_object_of_compile simple compiled
  obtain ⟨fields', simple', compiled'⟩ := exists_object_of_compile simple' compiled'
  have mirrors := Mirrors.compile simple compiled
  have mirrors' := Mirrors.compile simple' compiled'
  have alike := alike_of_form (readable_compile simple simple' compiled compiled')
    (readable_compile simple' simple compiled' compiled) same
  have types := mirrors.fields_rel mirrors' alike fun {x x' p t t'} leaf leaf' form typed typed' => by
    obtain ⟨t'', again, compatible⟩ := typeAt_form form leaf.neat leaf'.neat typed (.inr ⟨t', typed'⟩)
    cases typed'.symm.trans again
    exact compatible
  have compatible := mirrors.compatible mirrors' types
  have reachable {fields : List (String × Definition δ)} {s : Schema δ}
      (simple : Simple (object fields)) (compiled : compile o (object fields) = .ok s) :
      Reachable s := .compile (by rw [simple.schemas]; simp) compiled
  exact ⟨compatible,
    compatible.perm_indexes (reachable simple compiled) (reachable simple' compiled')⟩

end DocSchema
