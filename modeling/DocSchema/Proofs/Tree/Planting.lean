import DocSchema.Proofs.Tree.Frame

/-!
# Planting many fields

Fields that are inserted one after the other into a tree. Fields that share their first segment all
go into the branch under it (`plant_under`), so a tree can be planted branch by branch; and a place
that no field comes near stays as it was (`get?_plant`).
-/

namespace DocSchema.Tree

variable {α : Type}

/-- Insert fields in order, up to the first one that is blocked. -/
def plant : List (List String × α) → Table (Tree α) → Except (List String) (Table (Tree α))
  | [], root => .ok root
  | (segments, a) :: rest, root =>
    match insertField segments a root with
    | .error blocking => .error blocking
    | .ok root => plant rest root

variable {leaves others : List (List String × α)} {root root' : Table (Tree α)}

theorem plant_append : plant (leaves ++ others) root =
    match plant leaves root with
    | .error blocking => .error blocking
    | .ok root => plant others root := by
  induction leaves generalizing root with
  | nil => rfl
  | cons leaf leaves ih =>
    obtain ⟨segments, a⟩ := leaf
    rw [List.cons_append, plant, plant]
    cases insertField segments a root with
    | error blocking => rfl
    | ok root => exact ih

/-- Where all fields of a list can be planted, those up to some place can be. -/
theorem plant_append_ok {all : Table (Tree α)} (h : plant (leaves ++ others) root = .ok all) :
    ∃ root', plant leaves root = .ok root' ∧ plant others root' = .ok all := by
  rw [plant_append] at h
  split at h
  · cases h
  · next root' hp => exact ⟨root', hp, h⟩

theorem plant_cons_ok {segments : List String} {a : α} {all : Table (Tree α)}
    (h : plant ((segments, a) :: leaves) root = .ok all) :
    ∃ root', insertField segments a root = .ok root' ∧ plant leaves root' = .ok all := by
  rw [plant] at h
  split at h
  · cases h
  · next root' hi => exact ⟨root', hi, h⟩

/-- A place that is neither above nor below a planted field is not changed. -/
theorem get?_plant {other : List String} (hn : ∀ leaf ∈ leaves, leaf.1 ≠ [])
    (hl : ∀ leaf ∈ leaves, ¬ other <+: leaf.1 ∧ ¬ leaf.1 <+: other)
    (h : plant leaves root = .ok root') : get? other root' = get? other root := by
  induction leaves generalizing root with
  | nil =>
    cases h
    rfl
  | cons leaf leaves ih =>
    obtain ⟨segments, a⟩ := leaf
    obtain ⟨root₁, hi, hp⟩ := plant_cons_ok h
    have first := hl (segments, a) List.mem_cons_self
    have put := insertField_placed (hn (segments, a) List.mem_cons_self) hi
    rw [ih (fun l hm => hn l (List.mem_cons_of_mem _ hm))
      (fun l hm => hl l (List.mem_cons_of_mem _ hm)) hp]
    exact put.apart other first.1 first.2

/-- Fields below one name go into the branch under this name. -/
theorem plant_under {name : String} {inner inner' : Table (Tree α)} (hne : leaves ≠ [])
    (hn : ∀ leaf ∈ leaves, leaf.1 ≠ []) (hi : inner? root name = some inner)
    (h : plant leaves inner = .ok inner') :
    plant (leaves.map fun leaf => (name :: leaf.1, leaf.2)) root =
      .ok (Table.insert root name (.branch inner')) := by
  induction leaves generalizing root inner with
  | nil => exact absurd rfl hne
  | cons leaf leaves ih =>
    obtain ⟨segments, a⟩ := leaf
    obtain ⟨inner₁, hi₁, hp⟩ := plant_cons_ok h
    have first : insertField (name :: segments) a root =
        .ok (Table.insert root name (.branch inner₁)) := by
      unfold insertField at hi₁ ⊢
      rw [changeAt_cons (hn (segments, a) List.mem_cons_self), hi]
      dsimp only
      rw [hi₁]
    rw [List.map_cons, plant, first]
    show plant _ (Table.insert root name (.branch inner₁)) = _
    cases leaves with
    | nil =>
      cases hp
      rfl
    | cons leaf' leaves =>
      have known : inner? (Table.insert root name (.branch inner₁)) name = some inner₁ :=
        inner?_of_branch (Table.get?_insert_self _ _ _)
      have hn' : ∀ l ∈ leaf' :: leaves, l.1 ≠ [] := fun l hm => hn l (List.mem_cons_of_mem _ hm)
      rw [ih (List.cons_ne_nil leaf' leaves) hn' known hp, Table.insert_insert]

end DocSchema.Tree
