import DocSchema.Proofs.Tree.Frame

/-!
# Changing what the fields of a tree hold

The names of a tree and the way they nest do not depend on what its fields hold. So looking up and
inserting, with the segments that are in the way, go together with a change of what the fields hold
(`get?_map`, `insertField_map`, `insertVirtual_map`).
-/

namespace DocSchema.Tree

variable {α β : Type}

mutual

def map (f : α → β) : Tree α → Tree β
  | .branch children => .branch (mapChildren f children)
  | .field a => .field (f a)
  | .virtual => .virtual

def mapChildren (f : α → β) : List (String × Tree α) → List (String × Tree β)
  | [] => []
  | (name, x) :: rest => (name, map f x) :: mapChildren f rest

end

variable {f : α → β}

@[simp] theorem map_branch (children : Table (Tree α)) :
    map f (.branch children) = .branch (mapChildren f children) := rfl

@[simp] theorem map_field (a : α) : map f (.field a) = .field (f a) := rfl

@[simp] theorem map_virtual : map f (.virtual : Tree α) = .virtual := rfl

theorem mapChildren_eq (root : Table (Tree α)) :
    mapChildren f root = Table.mapValues (map f) root := by
  induction root with
  | nil => rfl
  | cons e root ih =>
    obtain ⟨name, x⟩ := e
    rw [mapChildren, ih]
    rfl

theorem child_map (root : Table (Tree α)) (name : String) :
    Table.get? (mapChildren f root) name = (Table.get? root name).map (map f) := by
  rw [mapChildren_eq, Table.get?_mapValues]

theorem mapChildren_insert (root : Table (Tree α)) (name : String) (x : Tree α) :
    mapChildren f (Table.insert root name x) =
      Table.insert (mapChildren f root) name (map f x) := by
  rw [mapChildren_eq, mapChildren_eq, Table.mapValues_insert]

theorem get?_map (names : List String) (root : Table (Tree α)) :
    get? names (mapChildren f root) = (get? names root).map (map f) := by
  induction names generalizing root with
  | nil => rfl
  | cons name rest ih =>
    cases rest with
    | nil => exact child_map root name
    | cons s rest =>
      rw [get?_cons_cons, get?_cons_cons, child_map]
      cases Table.get? root name with
      | none => rfl
      | some x =>
        cases x with
        | branch inner => exact ih inner
        | field a => rfl
        | virtual => rfl

theorem inner?_map (root : Table (Tree α)) (name : String) :
    inner? (mapChildren f root) name = (inner? root name).map (mapChildren f) := by
  rw [inner?, inner?, child_map]
  cases Table.get? root name with
  | none => rfl
  | some x => cases x <;> rfl

/-- Changes that do the same at the last segment do the same to the whole tree. -/
theorem changeAt_map {change : Table (Tree α) → String → Except (List String) (Table (Tree α))}
    {change' : Table (Tree β) → String → Except (List String) (Table (Tree β))}
    (same : ∀ children last,
      change' (mapChildren f children) last = (change children last).map (mapChildren f))
    (names : List String) (root : Table (Tree α)) :
    changeAt change' names (mapChildren f root) =
      (changeAt change names root).map (mapChildren f) := by
  induction names generalizing root with
  | nil => rfl
  | cons name rest ih =>
    cases rest with
    | nil => exact same root name
    | cons s rest =>
      have given : s :: rest ≠ [] := List.cons_ne_nil s rest
      rw [changeAt_cons given, changeAt_cons given, inner?_map]
      cases inner? root name with
      | none => rfl
      | some inner =>
        simp only [Option.map_some]
        rw [ih inner]
        cases changeAt change (s :: rest) inner with
        | error blocking => rfl
        | ok inner' => simp [Except.map, mapChildren_insert]

theorem insertField_map (names : List String) (a : α) (root : Table (Tree α)) :
    insertField names (f a) (mapChildren f root) =
      (insertField names a root).map (mapChildren f) := by
  apply changeAt_map
  intro children last
  rw [Except.map, mapChildren_insert, map_field]

theorem insertVirtual_map (names : List String) (root : Table (Tree α)) :
    insertVirtual names (mapChildren f root) = (insertVirtual names root).map (mapChildren f) := by
  apply changeAt_map
  intro children last
  rw [child_map]
  cases Table.get? children last with
  | none => simp [Except.map, mapChildren_insert]
  | some x => cases x <;> rfl

end DocSchema.Tree
