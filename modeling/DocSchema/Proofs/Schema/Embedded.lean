import DocSchema.Proofs.Schema.Groups
import DocSchema.Proofs.Schema.Names

/-!
# Names known of embedded schemas

What a schema knows of the schemas embedded in it lies below the paths of its own fields
(`EmbeddedBelow`), whatever these schemas are. Where they were built by calls that all succeeded, it
is a field or a group but not both (`EmbeddedInside`). Together with `Coherent` and with filled
groups this keeps all names apart that a look-up may find: declared here or known of an embedded
schema, a name is a field, a group or a virtual, and only one of them (`Built.orderly`).
-/

namespace DocSchema.Schema

variable {δ : Type} {s s' : Schema δ}

/-- Whether a path is a field, here or in an embedded schema. -/
def KnowsField (s : Schema δ) (path : String) : Prop :=
  path ∈ Table.keys s.fields ∨ path ∈ Table.keys s.embeddedFields

def KnowsGroup (s : Schema δ) (path : String) : Prop :=
  path ∈ s.groups ∨ path ∈ s.embeddedGroups

theorem hasGroup_iff {path : String} : s.hasGroup path = true ↔ s.KnowsGroup path := by
  simp [hasGroup, KnowsGroup]

/-- Whether all that is known of embedded schemas lies below fields. -/
def EmbeddedBelow (s : Schema δ) : Prop :=
  ∀ k, k ∈ Table.keys s.embeddedFields ∨ k ∈ s.embeddedGroups →
    ∃ p ∈ Table.keys s.fields, Path.isBelow p k = true

namespace EmbeddedBelow

theorem empty (o : Options) : EmbeddedBelow (Schema.empty o : Schema δ) := by
  intro k h
  simp [Schema.empty] at h

theorem congr (h : EmbeddedBelow s) (hf : s'.fields = s.fields)
    (he : s'.embeddedFields = s.embeddedFields) (hg : s'.embeddedGroups = s.embeddedGroups) :
    EmbeddedBelow s' := by
  rw [EmbeddedBelow, hf, he, hg]
  exact h

/-- The names of a schema that is embedded lie below the path of its field. -/
theorem adopt (h : EmbeddedBelow s) (path : String) (t : FieldType δ) :
    EmbeddedBelow (s.adopt path t) := by
  -- what was known before still lies below the same fields
  have old {k : String} (hk : k ∈ Table.keys s.embeddedFields ∨ k ∈ s.embeddedGroups) :
      ∃ p ∈ Table.keys (s.adopt path t).fields, Path.isBelow p k = true := by
    obtain ⟨p, hp, hb⟩ := h k hk
    exact ⟨p, by rw [adopt_fields]; exact Table.mem_keys_insert.2 (.inr hp), hb⟩
  have new (q : String) :
      ∃ p ∈ Table.keys (s.adopt path t).fields, Path.isBelow p (Path.below path q) = true := by
    refine ⟨path, ?_, Path.isBelow_below path q⟩
    rw [adopt_fields]
    exact Table.mem_keys_insert.2 (.inl rfl)
  intro k hk
  rcases adopt_cases s path t with ⟨child, -, hf, hg⟩ | ⟨hf, hg⟩
  · rw [hf, hg, Table.mem_keys] at hk
    rcases hk with ⟨a, ha⟩ | hk
    · rcases mem_embed_fields ha with ⟨ha, -⟩ | ⟨⟨q, b⟩, -, he⟩
      · exact old (.inl (Table.mem_keys.2 ⟨a, ha⟩))
      · obtain ⟨rfl, -⟩ := Prod.mk.inj he
        exact new q
    · rcases mem_embed_groups hk with ⟨hk, -⟩ | ⟨q, -, rfl⟩
      · exact old (.inr hk)
      · exact new q
  · rw [hf, hg] at hk
    exact old hk

/-- Every step keeps what is known of embedded schemas below fields, whatever these schemas are. -/
theorem step [Document δ] {R : Schema δ → Prop} (h : EmbeddedBelow s) (hs : Step R s s') :
    EmbeddedBelow s' := by
  cases hs.names with
  | bind placed =>
    obtain ⟨-, -, tree, -, rfl⟩ := place_ok placed
    exact h
  | @declare path d t s₁ placed _ _ =>
    obtain ⟨-, -, tree, -, rfl⟩ := place_ok placed
    have h₁ : EmbeddedBelow { s with tree := tree } := h
    exact h₁.adopt path t
  | openGroup free => exact h
  | declareVirtual options new placed => exact h
  | extendVirtual known => exact h
  | other same => exact h.congr same.fields same.embeddedFields same.embeddedGroups

end EmbeddedBelow

/-- What is known of embedded schemas lies below fields, and no path is both a field and a group. -/
structure EmbeddedInside (s : Schema δ) : Prop where
  below_field : ∀ k, k ∈ Table.keys s.embeddedFields ∨ k ∈ s.embeddedGroups →
    ∃ p ∈ Table.keys s.fields, Path.isBelow p k = true
  apart : ∀ k ∈ Table.keys s.embeddedFields, k ∉ s.embeddedGroups

namespace EmbeddedInside

theorem empty (o : Options) : EmbeddedInside (Schema.empty o : Schema δ) where
  below_field k h := by simp [Schema.empty] at h
  apart k h := by simp [Schema.empty] at h

theorem congr (h : EmbeddedInside s) (hf : s'.fields = s.fields)
    (he : s'.embeddedFields = s.embeddedFields) (hg : s'.embeddedGroups = s.embeddedGroups) :
    EmbeddedInside s' := by
  constructor
  · rw [hf, he, hg]
    exact h.below_field
  · rw [he, hg]
    exact h.apart

/-- Where one more field is stored that embeds nothing, nothing else is known of embedded schemas.
-/
theorem adoptPlain (h : EmbeddedInside s) {path : String} {t : FieldType δ}
    (hf : (s.adopt path t).embeddedFields = s.embeddedFields)
    (hg : (s.adopt path t).embeddedGroups = s.embeddedGroups) :
    EmbeddedInside (s.adopt path t) := by
  refine ⟨EmbeddedBelow.adopt h.below_field path t, ?_⟩
  rw [hf, hg]
  exact h.apart

/-- What a schema knows takes the place of all that was known below the path where it is embedded.
-/
theorem adoptEmbedded (h : EmbeddedInside s) {path : String} {t : FieldType δ} {child : Schema δ}
    (hf : (s.adopt path t).embeddedFields = (s.embed path child).embeddedFields)
    (hg : (s.adopt path t).embeddedGroups = (s.embed path child).embeddedGroups)
    (inside : ∀ k, child.KnowsField k → ¬ child.KnowsGroup k) :
    EmbeddedInside (s.adopt path t) := by
  have field {k : String} (hk : k ∈ Table.keys (s.adopt path t).embeddedFields) :
      (k ∈ Table.keys s.embeddedFields ∧ Path.isBelow path k = false) ∨
        ∃ q, child.KnowsField q ∧ k = Path.below path q := by
    rw [hf, Table.mem_keys] at hk
    obtain ⟨a, ha⟩ := hk
    rcases mem_embed_fields ha with ⟨ha, hb⟩ | ⟨⟨q, b⟩, hq, he⟩
    · exact .inl ⟨Table.mem_keys.2 ⟨a, ha⟩, hb⟩
    · obtain ⟨rfl, -⟩ := Prod.mk.inj he
      refine .inr ⟨q, ?_, rfl⟩
      rcases List.mem_append.1 hq with hq | hq
      · exact .inl (Table.mem_keys.2 ⟨b, hq⟩)
      · exact .inr (Table.mem_keys.2 ⟨b, hq⟩)
  have group {k : String} (hk : k ∈ (s.adopt path t).embeddedGroups) :
      (k ∈ s.embeddedGroups ∧ Path.isBelow path k = false) ∨
        ∃ q, child.KnowsGroup q ∧ k = Path.below path q := by
    rw [hg] at hk
    rcases mem_embed_groups hk with hk | ⟨q, hq, rfl⟩
    · exact .inl hk
    · exact .inr ⟨q, List.mem_append.1 hq, rfl⟩
  constructor
  · exact EmbeddedBelow.adopt h.below_field path t
  · intro k hk hk'
    -- names of the new schema lie below the path, those that were kept do not
    rcases field hk with ⟨hk, hb⟩ | ⟨q, hq, rfl⟩
    · rcases group hk' with ⟨hk', -⟩ | ⟨q', -, rfl⟩
      · exact h.apart k hk hk'
      · rw [Path.isBelow_below] at hb
        cases hb
    · rcases group hk' with ⟨-, hb⟩ | ⟨q', hq', he⟩
      · rw [Path.isBelow_below] at hb
        cases hb
      · rw [Path.below_inj.1 he] at hq
        exact inside q' hq hq'

end EmbeddedInside

/-! ### All known names -/

/-- Groups that are filled have no field above them. -/
theorem Coherent.not_group_of_below (h : Coherent s) (filled : GroupsFilled s) {a b : String}
    (ha : Table.contains s.fields a = true) (hab : Path.isBelow a b = true) : b ∉ s.groups := by
  intro hb
  obtain ⟨f, hf, hbf⟩ := filled b hb
  have apart := h.not_below (.inl ha) (.inl hf)
  rw [Path.isBelow_trans hab hbf] at apart
  cases apart

/-- What is needed for all known names to be apart. -/
structure Orderly (s : Schema δ) : Prop where
  coherent : Coherent s
  filled : GroupsFilled s
  embedded : EmbeddedInside s

namespace Orderly

/-- What lies below a field is no field and no virtual. -/
theorem not_field_of_below (h : Orderly s) {a b : String} (ha : a ∈ Table.keys s.fields)
    (hab : Path.isBelow a b = true) : ¬ s.Declares b := by
  intro hb
  have declared : s.Declares a := .inl ((Table.contains_iff_mem_keys _ _).2 ha)
  rw [h.coherent.not_below declared hb] at hab
  cases hab

/-- A group has no field above it. -/
theorem not_group_of_below (h : Orderly s) {a b : String} (ha : a ∈ Table.keys s.fields)
    (hab : Path.isBelow a b = true) : b ∉ s.groups :=
  h.coherent.not_group_of_below h.filled ((Table.contains_iff_mem_keys _ _).2 ha) hab

/-- What lies below a known field lies below a field that is declared here. -/
theorem exists_field_above (h : Orderly s) {a b : String} (ha : s.KnowsField a)
    (hab : Path.isBelow a b = true) : ∃ p ∈ Table.keys s.fields, Path.isBelow p b = true := by
  rcases ha with ha | ha
  · exact ⟨a, ha, hab⟩
  · obtain ⟨p, hp, hb⟩ := h.embedded.below_field a (.inl ha)
    exact ⟨p, hp, Path.isBelow_trans hb hab⟩

/-- A known field is no known group. -/
theorem not_knowsGroup (h : Orderly s) {k : String} (hk : s.KnowsField k) : ¬ s.KnowsGroup k := by
  rintro (hg | hg)
  · rcases hk with hk | hk
    · exact h.coherent.not_group ((Table.contains_iff_mem_keys _ _).2 hk) hg
    · obtain ⟨p, hp, hb⟩ := h.embedded.below_field k (.inl hk)
      exact h.not_group_of_below hp hb hg
  · rcases hk with hk | hk
    · obtain ⟨p, hp, hb⟩ := h.embedded.below_field k (.inr hg)
      exact h.not_field_of_below hp hb (.inl ((Table.contains_iff_mem_keys _ _).2 hk))
    · exact h.embedded.apart k hk hg

/-- The groups of a schema itself are those that lie below none of its fields. -/
theorem mem_groups_iff (h : Orderly s) {k : String} :
    k ∈ s.groups ↔ s.KnowsGroup k ∧ ∀ p ∈ Table.keys s.fields, Path.isBelow p k = false := by
  constructor
  · intro hk
    refine ⟨.inl hk, fun p hp => ?_⟩
    rw [Bool.eq_false_iff]
    exact fun hb => h.not_group_of_below hp hb hk
  · rintro ⟨hk | hk, clear⟩
    · exact hk
    · obtain ⟨p, hp, hb⟩ := h.embedded.below_field k (.inr hk)
      rw [clear p hp] at hb
      cases hb

/-- A virtual is no known field. -/
theorem not_knowsField_of_virtual (h : Orderly s) {k : String}
    (hk : Table.contains s.virtuals k = true) : ¬ s.KnowsField k := by
  rintro (hf | hf)
  · rw [h.coherent.not_virtual ((Table.contains_iff_mem_keys _ _).2 hf)] at hk
    cases hk
  · obtain ⟨p, hp, hb⟩ := h.embedded.below_field k (.inl hf)
    exact h.not_field_of_below hp hb (.inr hk)

/-- A virtual is no known group. -/
theorem not_knowsGroup_of_virtual (h : Orderly s) {k : String}
    (hk : Table.contains s.virtuals k = true) : ¬ s.KnowsGroup k := by
  rintro (hg | hg)
  · obtain ⟨f, hf, hb⟩ := h.filled k hg
    rw [h.coherent.not_below (.inr hk) (.inl hf)] at hb
    cases hb
  · obtain ⟨p, hp, hb⟩ := h.embedded.below_field k (.inr hg)
    exact h.not_field_of_below hp hb (.inr hk)

end Orderly

variable [Document δ]

theorem EmbeddedInside.step (h : EmbeddedInside s)
    (hs : Step (fun c => Built c ∧ EmbeddedInside c) s s') : EmbeddedInside s' := by
  cases hs.names with
  | bind placed =>
    obtain ⟨-, -, tree, -, rfl⟩ := place_ok placed
    exact h.congr rfl rfl rfl
  | @declare path d t s₁ placed _ inside =>
    obtain ⟨-, -, tree, -, rfl⟩ := place_ok placed
    have h₁ : EmbeddedInside { s with tree := tree } := h.congr rfl rfl rfl
    rcases adopt_cases { s with tree := tree } path t with ⟨child, hk, hf, hg⟩ | ⟨hf, hg⟩
    · obtain ⟨built, hchild⟩ := inside child (by simp [FieldType.schemas_eq, hk, FieldKind.schemas])
      have orderly : Orderly child := ⟨Coherent.of_reached built, built.groupsFilled, hchild⟩
      exact h₁.adoptEmbedded hf hg fun k => orderly.not_knowsGroup
    · exact h₁.adoptPlain hf hg
  | openGroup free => exact h.congr rfl rfl rfl
  | declareVirtual options new placed => exact h.congr rfl rfl rfl
  | extendVirtual known => exact h.congr rfl rfl rfl
  | other same => exact h.congr same.fields same.embeddedFields same.embeddedGroups

/-- The names of a schema on which all calls succeeded are in order, with those of the schemas that
are embedded in it. -/
theorem Built.orderly (hs : Built s) : Orderly s where
  coherent := Coherent.of_reached hs
  filled := hs.groupsFilled
  embedded := hs.induct .empty fun _ _ st h => h.step st

end DocSchema.Schema
