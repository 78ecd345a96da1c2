import DocSchema.Proofs.Path.Below
import DocSchema.Proofs.Schema.Reachable

/-!
# Groups that are opened are filled

Where all calls succeed, a group always has a field below it: the object that opens it is not empty,
and its first entry that is no group is a field, for otherwise the call fails. A call that fails may
well leave a group without a field behind.
-/

namespace DocSchema

variable {δ τ σ : Type}

/-! ### Groups among the entries of a definition -/

namespace Entry

def path : Entry δ τ → String
  | .missing path => path
  | .missingItem path => path
  | .group path => path
  | .field path _ _ => path

/-- Whether an entry is anything but a group. -/
def isLeaf : Entry δ τ → Bool
  | .group _ => false
  | _ => true

@[simp] theorem path_withType (type : String → Definition δ → τ) (e : Entry δ Unit) :
    (e.withType type).path = e.path := by
  cases e <;> rfl

@[simp] theorem isLeaf_withType (type : String → Definition δ → τ) (e : Entry δ Unit) :
    (e.withType type).isLeaf = e.isLeaf := by
  cases e <;> rfl

end Entry

/-- Whether every group among some entries has an entry that is no group below it. -/
def GroupsLead (es : List (Entry δ τ)) : Prop :=
  ∀ g, Entry.group g ∈ es → ∃ e ∈ es, e.isLeaf = true ∧ Path.isBelow g e.path = true

theorem GroupsLead.append {es es' : List (Entry δ τ)} (h : GroupsLead es) (h' : GroupsLead es') :
    GroupsLead (es ++ es') := by
  intro g hg
  rcases List.mem_append.1 hg with hg | hg
  · obtain ⟨e, he, hl, hb⟩ := h g hg
    exact ⟨e, List.mem_append_left _ he, hl, hb⟩
  · obtain ⟨e, he, hl, hb⟩ := h' g hg
    exact ⟨e, List.mem_append_right _ he, hl, hb⟩

theorem GroupsLead.of_leaves {es : List (Entry δ τ)} (h : ∀ e ∈ es, e.isLeaf = true) :
    GroupsLead es := by
  intro g hg
  cases h _ hg

theorem GroupsLead.withType {es : List (Entry δ Unit)} (h : GroupsLead es)
    (type : String → Definition δ → τ) : GroupsLead (es.map (Entry.withType type)) := by
  intro g hg
  obtain ⟨e, he, heq⟩ := List.mem_map.1 hg
  have hg : Entry.group g ∈ es := by
    cases e with
    | group path =>
      cases heq
      exact he
    | missing path => cases heq
    | missingItem path => cases heq
    | field path d u => cases heq
  obtain ⟨e', he', hl, hb⟩ := h g hg
  exact ⟨_, List.mem_map_of_mem he', by simpa using hl, by simpa using hb⟩

namespace Definition

/-- What is no object with fields makes one entry, which is no group. -/
theorem entriesAt_leaf (typeKey path : String) {d : Definition δ}
    (h : ∀ f fs, d ≠ .object (f :: fs)) :
    ∃ e, entriesAt typeKey path d = [e] ∧ e.isLeaf = true ∧ e.path = path := by
  unfold entriesAt
  split
  · exact ⟨_, rfl, rfl, rfl⟩
  · exact ⟨_, rfl, rfl, rfl⟩
  · exact ⟨_, rfl, rfl, rfl⟩
  · next f fs => exact absurd rfl (h f fs)
  · exact ⟨_, rfl, rfl, rfl⟩

theorem exists_leaf_of_leaf (typeKey path : String) {d : Definition δ}
    (h : ∀ f fs, d ≠ .object (f :: fs)) : ∃ e ∈ entriesAt typeKey path d, e.isLeaf = true ∧
      (e.path = path ∨ Path.isBelow path e.path = true) := by
  obtain ⟨e, he, hl, hp⟩ := entriesAt_leaf typeKey path h
  rw [he]
  exact ⟨e, List.mem_singleton.2 rfl, hl, .inl hp⟩

theorem groupsLead_of_leaf {typeKey : String} (path : String) {d : Definition δ}
    (h : ∀ f fs, d ≠ .object (f :: fs)) : GroupsLead (entriesAt typeKey path d) := by
  obtain ⟨e, he, hl, -⟩ := entriesAt_leaf typeKey path h
  rw [he]
  exact .of_leaves fun e' he' => List.mem_singleton.1 he' ▸ hl

mutual

/-- There is an entry that is no group at the path of a definition or below it. -/
theorem exists_leaf_entriesAt (typeKey path : String) :
    ∀ d : Definition δ, ∃ e ∈ entriesAt typeKey path d, e.isLeaf = true ∧
      (e.path = path ∨ Path.isBelow path e.path = true)
  | .object (f :: fs) => by
    rw [entriesAt]
    split
    · obtain ⟨e, he, hl, hb⟩ := exists_leaf_entries typeKey path f fs
      exact ⟨e, List.mem_cons_of_mem _ he, hl, .inr hb⟩
    · exact ⟨.field path (.object (f :: fs)) (), by simp, rfl, .inl rfl⟩
  | .object [] => ⟨.field path (.object []) (), by simp [entriesAt], rfl, .inl rfl⟩
  | .literal v => exists_leaf_of_leaf typeKey path (d := .literal v) (by simp)
  | .array items => exists_leaf_of_leaf typeKey path (d := .array items) (by simp)
  | .type t => exists_leaf_of_leaf typeKey path (d := .type t) (by simp)
  | .schema s => exists_leaf_of_leaf typeKey path (d := .schema s) (by simp)

/-- There is an entry that is no group below the path of a group that is not empty. -/
theorem exists_leaf_entries (typeKey path : String) :
    ∀ (f : String × Definition δ) (fs : List (String × Definition δ)),
      ∃ e ∈ entries typeKey (path ++ ".") (f :: fs), e.isLeaf = true ∧
        Path.isBelow path e.path = true
  | (key, d), fs => by
    obtain ⟨e, he, hl, hp⟩ := exists_leaf_entriesAt typeKey (Path.below path key) d
    refine ⟨e, ?_, hl, ?_⟩
    · rw [entries]
      exact List.mem_append_left _ he
    · have hb := Path.isBelow_below path key
      rcases hp with hp | hp
      · rw [hp]
        exact hb
      · exact Path.isBelow_trans hb hp

end

mutual

theorem groupsLead_entriesAt {typeKey : String} (path : String) :
    ∀ d : Definition δ, GroupsLead (entriesAt typeKey path d)
  | .object (f :: fs) => by
    rw [entriesAt]
    split
    · intro g hg
      rcases List.mem_cons.1 hg with hg | hg
      · -- the group itself is not empty
        cases hg
        obtain ⟨e, he, hl, hb⟩ := exists_leaf_entries typeKey path f fs
        exact ⟨e, List.mem_cons_of_mem _ he, hl, hb⟩
      · obtain ⟨e, he, hl, hb⟩ := groupsLead_entries (path ++ ".") (f :: fs) g hg
        exact ⟨e, List.mem_cons_of_mem _ he, hl, hb⟩
    · exact .of_leaves (by simp [Entry.isLeaf])
  | .object [] => .of_leaves (by simp [entriesAt, Entry.isLeaf])
  | .literal v => groupsLead_of_leaf path (d := .literal v) (by simp)
  | .array items => groupsLead_of_leaf path (d := .array items) (by simp)
  | .type t => groupsLead_of_leaf path (d := .type t) (by simp)
  | .schema s => groupsLead_of_leaf path (d := .schema s) (by simp)

/-- No definition opens a group without anything below it. -/
theorem groupsLead_entries {typeKey : String} (front : String) :
    ∀ fields : List (String × Definition δ), GroupsLead (entries typeKey front fields)
  | [] => .of_leaves (by simp [entries])
  | (key, d) :: rest => by
    rw [entries]
    exact (groupsLead_entriesAt (front ++ key) d).append (groupsLead_entries front rest)

end

end Definition

/-! ### Groups of a schema -/

namespace Schema

/-- Whether every group has a field below it. -/
def GroupsFilled (s : Schema δ) : Prop :=
  ∀ g ∈ s.groups, ∃ p, Table.contains s.fields p = true ∧ Path.isBelow g p = true

variable {s s' : Schema δ}

theorem GroupsFilled.mono (h : GroupsFilled s) (hg : s'.groups = s.groups)
    (hf : ∀ p, Table.contains s.fields p = true → Table.contains s'.fields p = true) :
    GroupsFilled s' := by
  intro g hm
  rw [hg] at hm
  obtain ⟨p, hp, hb⟩ := h g hm
  exact ⟨p, hf p hp, hb⟩

theorem groups_declareAs (s : Schema δ) (path : String) (d : Definition δ)
    (type : Except SchemaError (FieldType δ)) : (s.declareAs path d type).1.groups = s.groups := by
  unfold declareAs
  split
  · rfl
  · next s' hp =>
    obtain ⟨-, -, tree, -, rfl⟩ := place_ok hp
    split
    · rfl
    · rw [adopt_groups]

/-- No field is lost where another one is declared. -/
theorem contains_declareAs {p : String} (path : String) (d : Definition δ)
    (type : Except SchemaError (FieldType δ)) (hp : Table.contains s.fields p = true) :
    Table.contains (s.declareAs path d type).1.fields p = true := by
  unfold declareAs
  split
  · exact hp
  · next s' hs =>
    obtain ⟨-, -, tree, -, rfl⟩ := place_ok hs
    split
    · exact hp
    · rw [adopt_fields, Table.contains_insert]
      simp [hp]

theorem contains_register {p : String} (e : TypedEntry δ)
    (hp : Table.contains s.fields p = true) : Table.contains (s.register e).1.fields p = true := by
  cases e with
  | missing path => exact hp
  | missingItem path => exact hp
  | group path =>
    rw [register]
    split <;> exact hp
  | field path d type =>
    rw [register_field_fst]
    exact contains_declareAs path d type hp

theorem contains_registerAll {p : String} (es : List (TypedEntry δ))
    (hp : Table.contains s.fields p = true) :
    Table.contains (s.registerAll es).1.fields p = true := by
  induction es generalizing s with
  | nil => exact hp
  | cons e es ih =>
    have he := contains_register e hp
    rw [registerAll]
    split
    · next s₁ _ hr =>
      rw [hr] at he
      exact ih he
    · next s₁ _ hr =>
      rw [hr] at he
      exact he

/-- A group that is there after an entry was there before, or is the entry. -/
theorem mem_groups_register {g : String} {e : TypedEntry δ} (h : g ∈ (s.register e).1.groups) :
    g ∈ s.groups ∨ e = .group g := by
  cases e with
  | missing path => exact .inl h
  | missingItem path => exact .inl h
  | field path d type =>
    rw [register_field_fst, groups_declareAs] at h
    exact .inl h
  | group path =>
    rw [register] at h
    split at h
    · exact .inl h
    · rcases mem_addName.1 h with rfl | h
      · exact .inr rfl
      · exact .inl h

theorem mem_groups_registerAll {g : String} {es : List (TypedEntry δ)}
    (h : g ∈ (s.registerAll es).1.groups) : g ∈ s.groups ∨ Entry.group g ∈ es := by
  induction es generalizing s with
  | nil => exact .inl h
  | cons e es ih =>
    have first {s₁ : Schema δ} {r} (hr : s.register e = (s₁, r)) (hg : g ∈ s₁.groups) :
        g ∈ s.groups ∨ Entry.group g ∈ e :: es := by
      have hg : g ∈ (s.register e).1.groups := by rwa [hr]
      rcases mem_groups_register hg with hg | rfl
      · exact .inl hg
      · exact .inr List.mem_cons_self
    rw [registerAll] at h
    split at h
    · next s₁ _ hr =>
      rcases ih h with hg | hg
      · exact first hr hg
      · exact .inr (List.mem_cons_of_mem _ hg)
    · next s₁ _ hr => exact first hr h

/-- An entry that succeeds and is no group is a field from then on. -/
theorem contains_of_register_ok {e : TypedEntry δ} (hl : e.isLeaf = true)
    (ok : (s.register e).2 = .ok ()) : Table.contains (s.register e).1.fields e.path = true := by
  cases e with
  | missing path => cases ok
  | missingItem path => cases ok
  | group path => cases hl
  | field path d type =>
    rw [register] at ok
    split at ok
    · next s₁ t hd =>
      rw [register_field_fst, hd]
      unfold declareAs at hd
      split at hd
      · cases hd
      · split at hd
        · cases hd
        · cases hd
          simp [Entry.path, Table.contains_insert]
    · cases ok

theorem contains_of_registerAll_ok {es : List (TypedEntry δ)}
    (ok : (s.registerAll es).2 = .ok ()) : ∀ e ∈ es, e.isLeaf = true →
      Table.contains (s.registerAll es).1.fields e.path = true := by
  induction es generalizing s with
  | nil => simp
  | cons e es ih =>
    intro e' he' hl
    rw [registerAll] at ok ⊢
    split at ok
    · next s₁ _ hr =>
      rcases List.mem_cons.1 he' with rfl | he'
      · have done := contains_of_register_ok (s := s) hl (by rw [hr])
        rw [hr] at done
        exact contains_registerAll es done
      · exact ih ok e' he' hl
    · cases ok

/-- Where all entries succeed, their groups are filled. -/
theorem GroupsFilled.registerAll (h : GroupsFilled s) {es : List (TypedEntry δ)}
    (lead : GroupsLead es) (ok : (s.registerAll es).2 = .ok ()) :
    GroupsFilled (s.registerAll es).1 := by
  intro g hg
  rcases mem_groups_registerAll hg with hg | hg
  · obtain ⟨p, hp, hb⟩ := h g hg
    exact ⟨p, contains_registerAll es hp, hb⟩
  · -- the entry below the group was declared, since nothing failed
    obtain ⟨e, he, hl, hb⟩ := lead g hg
    exact ⟨e.path, contains_of_registerAll_ok ok e he hl, hb⟩

/-! ### Compiling and calls -/

theorem SameNames.groupsFilled (same : SameNames s s') (h : GroupsFilled s) : GroupsFilled s' :=
  h.mono same.groups fun p hp => by rwa [same.fields]

theorem GroupsFilled.declareAs (h : GroupsFilled s) (path : String) (d : Definition δ)
    (type : Except SchemaError (FieldType δ)) : GroupsFilled (s.declareAs path d type).1 :=
  h.mono (groups_declareAs s path d type) fun _ => contains_declareAs path d type

theorem GroupsFilled.extendVirtual (h : GroupsFilled s) (path : String) (options : Table Json)
    (getters : List Getter) (setters : List Setter) :
    GroupsFilled (s.extendVirtual path options getters setters).1 := by
  unfold Schema.extendVirtual virtual
  cases Table.get? s.virtuals path with
  | some v => exact h.mono rfl fun _ => id
  | none =>
    cases Tree.insertVirtual (Path.segments path) s.tree with
    | error blocking => exact h.mono rfl fun _ => id
    | ok tree => exact h.mono rfl fun _ => id

theorem GroupsFilled.addIdField (h : GroupsFilled s) : GroupsFilled s.addIdField.1 := by
  unfold Schema.addIdField
  dsimp only
  split
  · rw [register_field_fst]
    exact h.declareAs _ _ _
  · exact h

theorem GroupsFilled.addIdVirtual (h : GroupsFilled s) : GroupsFilled s.addIdVirtual.1 := by
  have hv := h.extendVirtual "id" [] [idText] []
  unfold Schema.addIdVirtual
  split
  · split <;> simp_all
  · exact h

theorem GroupsFilled.addStampFields (h : GroupsFilled s) (ok : s.addStampFields.2 = .ok ()) :
    GroupsFilled s.addStampFields.1 := by
  unfold Schema.addStampFields at ok ⊢
  split at ok
  · exact h
  · refine h.registerAll (.of_leaves fun e he => ?_) ok
    obtain ⟨p, -, rfl⟩ := List.mem_map.1 he
    rfl

variable [Document δ] {o : Options}

/-- The groups of an assembled schema are filled. -/
theorem groupsFilled_of_assemble {es : List (TypedEntry δ)} (lead : GroupsLead es)
    (h : assemble o es = .ok s) : GroupsFilled s := by
  have h₀ : GroupsFilled (empty o : Schema δ) := fun g hg => absurd hg List.not_mem_nil
  unfold assemble at h
  split at h
  · cases h
  · next s₁ _ e₁ =>
    have h₁ := h₀.registerAll lead (by rw [e₁])
    rw [e₁] at h₁
    have h₂ := h₁.addIdField
    split at h
    · cases h
    · next s₂ _ e₂ =>
      rw [e₂] at h₂
      have h₃ := h₂.addIdVirtual
      split at h
      · cases h
      · next s₃ _ e₃ =>
        rw [e₃] at h₃
        have builtIn : GroupsFilled s₃.addBuiltIn := h₃.mono rfl fun _ => id
        split at h
        · cases h
        · next s₄ _ e₄ =>
          have h₄ := builtIn.addStampFields (by rw [e₄])
          rw [e₄] at h₄
          cases h
          exact (sameNames_addStampHook s₄).groupsFilled h₄

theorem groupsFilled_of_compile {d : Definition δ} (h : compile o d = .ok s) : GroupsFilled s := by
  unfold compile at h
  split at h
  · next fields =>
    exact groupsFilled_of_assemble ((Definition.groupsLead_entries "" fields).withType _) h
  · exact groupsFilled_of_assemble (.of_leaves (by simp)) h
  · cases h

theorem GroupsFilled.add (h : GroupsFilled s) {d : Definition δ} {front : String}
    (ok : (s.add d front).2 = .ok ()) : GroupsFilled (s.add d front).1 := by
  unfold Schema.add at ok ⊢
  split at ok
  · next fields => exact h.registerAll ((Definition.groupsLead_entries front fields).withType _) ok
  · cases ok

end Schema

namespace Call

open Schema

variable [Document δ]

mutual

/-- A call that succeeds leaves the groups filled, whatever calls it makes itself. -/
theorem groupsFilled_run (c : Call δ) (s : Schema δ) (ok : Succeeds s c) (h : GroupsFilled s) :
    GroupsFilled (run s c).1 := by
  cases c with
  | add d front => exact h.add ok
  | declare path d => exact h.declareAs path d _
  | lookup path => exact (sameNames_lookup s path).groupsFilled h
  | classify path => exact (sameNames_classify s path).groupsFilled h
  | requiredPaths anew => exact (sameNames_requiredPaths s anew).groupsFilled h
  | index fields options => exact (sameNames_addIndex s fields options).groupsFilled h
  | indexedPaths => exact (sameNames_indexedPaths s).groupsFilled h
  | virtual path options getters setters => exact h.extendVirtual path options getters setters
  | queue name args => exact h.mono rfl fun _ => id
  | pre event hook => exact (sameNames_addHook s _).groupsFilled h
  | post event hook => exact (sameNames_addHook s _).groupsFilled h
  | postWithNext event hook => exact (sameNames_addHook s _).groupsFilled h
  | method name m => exact h.mono rfl fun _ => id
  | static name f => exact h.mono rfl fun _ => id
  | set key v => exact (sameNames_setOption s key v).groupsFilled h
  | plugin calls => exact groupsFilled_runUntilError calls s ok h
  | compile o d => exact h
  | attempt c => exact groupsFilled_run c s ok h
  | fail e => exact h

theorem groupsFilled_runUntilError (cs : List (Call δ)) (s : Schema δ) (ok : AllSucceed s cs)
    (h : GroupsFilled s) : GroupsFilled (runUntilError s cs).1 := by
  match cs, ok with
  | [], _ => exact h
  | c :: cs, ⟨first, others⟩ =>
    have hc := groupsFilled_run c s first h
    rw [runUntilError]
    split
    · next s' _ hr =>
      rw [hr] at hc others
      exact groupsFilled_runUntilError cs s' others hc
    · next s' _ hr =>
      rw [hr] at hc
      exact hc

end

end Call

/-- Every group of a schema on which all calls succeeded has a field below it. -/
theorem Schema.Built.groupsFilled [Document δ] {s : Schema δ} (hs : Schema.Built s) :
    Schema.GroupsFilled s := by
  induction hs with
  | compile _ compiled _ => exact Schema.groupsFilled_of_compile compiled
  | call c _ _ fits ih _ => exact Call.groupsFilled_run c _ fits ih

end DocSchema
