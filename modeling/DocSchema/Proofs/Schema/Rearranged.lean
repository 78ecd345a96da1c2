import DocSchema.Proofs.Schema.Fingerprints
import DocSchema.Proofs.Tree.Swapping

/-!
# Schemas that were put together in another order

Two schemas are rearranged if they hold the same in whatever order: the same fields, groups and
virtuals, and trees that are alike. The order does not show in what a schema answers: each path
stands for the same in both, and so do positions in arrays, their fingerprints are the same, and
their indexes are, up to the order (`Rearranged.answersAlike`).
-/

namespace DocSchema

open Definition

variable {δ : Type}

namespace Schema

variable {s s' : Schema δ}

/-- Whether two schemas answer alike, whatever they are asked. -/
structure AnswersAlike (s s' : Schema δ) : Prop where
  fields : ∀ path, Table.get? s.fields path = Table.get? s'.fields path
  classify : ∀ path, (s.classify path).2 = (s'.classify path).2
  lookup : ∀ path, (s.lookup path).2 = (s'.lookup path).2
  fingerprint : s.fingerprint = s'.fingerprint
  indexes : s.indexes.Perm s'.indexes

/-- Whether two schemas hold the same, in whatever order. -/
structure Rearranged (s s' : Schema δ) : Prop where
  fields : ∀ path, Table.get? s.fields path = Table.get? s'.fields path
  groups : s.groups = s'.groups
  embeddedFields : ∀ path, Table.get? s.embeddedFields path = Table.get? s'.embeddedFields path
  embeddedGroups : ∀ path, path ∈ s.embeddedGroups ↔ path ∈ s'.embeddedGroups
  located : s.located = s'.located
  virtuals : s.virtuals = s'.virtuals
  ownIndexes : s.ownIndexes = s'.ownIndexes
  tree : Tree.Alike SameForm (.branch s.tree) (.branch s'.tree)

namespace Rearranged

theorem refl (s : Schema δ) : Rearranged s s where
  fields _ := rfl
  groups := rfl
  embeddedFields _ := rfl
  embeddedGroups _ := .rfl
  located := rfl
  virtuals := rfl
  ownIndexes := rfl
  tree := Tree.Alike.refl (R := SameForm) (fun _ => rfl) _

/-! ### Paths -/

theorem direct?_eq (h : Rearranged s s') (path : String) : s.direct? path = s'.direct? path := by
  rw [direct?, direct?, h.fields, h.located, h.embeddedFields]

theorem hasGroup_eq (h : Rearranged s s') (path : String) : s.hasGroup path = s'.hasGroup path := by
  have embedded : s.embeddedGroups.contains path = s'.embeddedGroups.contains path := by
    rw [Bool.eq_iff_iff, List.contains_iff_mem, List.contains_iff_mem]
    exact h.embeddedGroups path
  rw [hasGroup, hasGroup, h.groups, embedded]

theorem locate_eq (h : Rearranged s s') (path : String) : s.locate path = s'.locate path := by
  unfold locate
  split
  · rw [h.direct?_eq]
  · rfl

/-- What one of them remembers, the other one remembers, too. -/
theorem remember (h : Rearranged s s') (path : String) :
    Rearranged (s.remember path).1 (s'.remember path).1 ∧
      (s.remember path).2 = (s'.remember path).2 := by
  unfold Schema.remember
  rw [← h.located]
  split
  · exact ⟨h, rfl⟩
  · rw [h.locate_eq]
    exact ⟨{ h with located := rfl }, rfl⟩

theorem classify_eq (h : Rearranged s s') (path : String) :
    (s.classify path).2 = (s'.classify path).2 := by
  have real : Table.contains s.fields path = Table.contains s'.fields path := by
    rw [Table.contains, Table.contains, h.fields]
  unfold Schema.classify
  rw [real, h.virtuals, h.hasGroup_eq, h.direct?_eq]
  split
  · rfl
  split
  · rfl
  split
  · rfl
  split
  · rfl
  split
  · exact congrArg Located.pathClass (h.remember path).2
  · rfl

theorem lookup_eq (h : Rearranged s s') (path : String) :
    (s.lookup path).2 = (s'.lookup path).2 := by
  have asked : Rearranged
      (if (s.direct? path).isNone && !s.hasGroup path && Path.isPositional path then
        (s.remember path).1 else s)
      (if (s'.direct? path).isNone && !s'.hasGroup path && Path.isPositional path then
        (s'.remember path).1 else s') := by
    rw [h.direct?_eq, h.hasGroup_eq]
    split
    · exact (h.remember path).1
    · exact h
  unfold Schema.lookup
  dsimp only
  -- the answer is read off the schemas that are left behind
  generalize (if (s.direct? path).isNone && !s.hasGroup path && Path.isPositional path then
    (s.remember path).1 else s) = s₁ at asked ⊢
  generalize (if (s'.direct? path).isNone && !s'.hasGroup path && Path.isPositional path then
    (s'.remember path).1 else s') = s₁' at asked ⊢
  rw [asked.direct?_eq, asked.hasGroup_eq, asked.located]
  split
  · rfl
  · split <;> rfl

end Rearranged

/-! ### Fingerprints and indexes -/

variable [Document δ]

theorem soundRoot_of_reachable (hs : Reachable s) : Tree.SoundRoot s.tree := by
  refine hs.induct (P := fun s => Tree.SoundRoot s.tree) (fun o => Tree.soundRoot_nil)
    fun s s' step ih => ?_
  have field {path : String} {d : Definition δ} {bound : Schema δ}
      (placed : s.place path d = .ok bound) : Tree.SoundRoot bound.tree := by
    obtain ⟨-, -, tree, run, rfl⟩ := place_ok placed
    exact ih.insertField (Path.segments_ne_nil path) run
  cases step.names with
  | bind placed => exact field placed
  | declare placed _ _ =>
    rw [adopt_tree]
    exact field placed
  | openGroup free => exact ih
  | declareVirtual options new placed => exact ih.insertVirtual (Path.segments_ne_nil _) placed
  | extendVirtual known => exact ih
  | other same =>
    rw [same.tree]
    exact ih

theorem Rearranged.fingerprint_eq (h : Rearranged s s') (hs : Reachable s) (hs' : Reachable s') :
    s.fingerprint = s'.fingerprint := by
  have bytes : s.fingerprintBytes = s'.fingerprintBytes := fingerprintBytes_inj.2
    ⟨root_form_of_alike h.tree (soundRoot_of_reachable hs) (soundRoot_of_reachable hs'),
      by rw [h.ownIndexes]⟩
  rw [fingerprint, fingerprint, bytes]

theorem Rearranged.perm_indexes (h : Rearranged s s') (hs : Reachable s) (hs' : Reachable s') :
    s.indexes.Perm s'.indexes := by
  have fields : s.fields.Perm s'.fields :=
    (Table.perm_iff_get? (Coherent.of_reached hs).distinct (Coherent.of_reached hs').distinct).2
      h.fields
  rw [indexes_parts hs, indexes_parts hs', h.ownIndexes]
  exact (fields.flatMap_right _).append_right _

theorem Rearranged.answersAlike (h : Rearranged s s') (hs : Reachable s) (hs' : Reachable s') :
    AnswersAlike s s' where
  fields := h.fields
  classify := h.classify_eq
  lookup := h.lookup_eq
  fingerprint := h.fingerprint_eq hs hs'
  indexes := h.perm_indexes hs hs'

end Schema

end DocSchema
