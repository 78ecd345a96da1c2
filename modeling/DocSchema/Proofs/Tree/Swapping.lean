import DocSchema.Proofs.Tree.Alike

/-!
# Insertions at places that lie apart

Two places lie apart if neither leads to the other one. They may share the first part of the way,
and then the branches on it are made by whichever insertion comes first. Still, an insertion fails
after another one that lies apart exactly if it fails before it, with the same answer, and in either
order the trees come out alike (`swap_of_apart`). Only the order of the names may differ.
-/

namespace DocSchema.Tree

variable {α : Type}

/-! ### Trees that are alike -/

/-- Every tree is alike to itself. -/
theorem Alike.refl {R : α → α → Prop} (refl : ∀ a, R a a) : ∀ x : Tree α, Alike R x x
  | .branch children => by
    refine .branch (fun _ => rfl) fun name x x' hx hx' => ?_
    have smaller := Table.sizeOf_lt_of_get? hx
    cases hx.symm.trans hx'
    exact Alike.refl refl x
  | .field a => .field (refl a)
  | .virtual => .virtual

theorem rel_refl {R : α → α → Prop} (refl : ∀ a, R a a) (x : Option (Tree α)) :
    Option.Rel (Alike R) x x := by
  cases x with
  | none => exact .none
  | some x => exact .some (Alike.refl refl x)

/-- Under different names, nodes are stored in any order. -/
theorem Alike.insert_comm {R : α → α → Prop} (refl : ∀ a, R a a) (root : Table (Tree α))
    {name other : String} (apart : name ≠ other) (x y : Tree α) :
    Alike R (.branch (Table.insert (Table.insert root name x) other y))
      (.branch (Table.insert (Table.insert root other y) name x)) := by
  refine .of_at_name fun key => ?_
  have same : Table.get? (Table.insert (Table.insert root name x) other y) key =
      Table.get? (Table.insert (Table.insert root other y) name x) key := by
    by_cases hn : key = name
    · subst hn
      rw [Table.get?_insert_of_ne _ _ apart, Table.get?_insert_self, Table.get?_insert_self]
    · rw [Table.get?_insert_of_ne _ _ hn]
      by_cases ho : key = other
      · subst ho
        rw [Table.get?_insert_self, Table.get?_insert_self]
      · rw [Table.get?_insert_of_ne _ _ ho, Table.get?_insert_of_ne _ _ ho,
          Table.get?_insert_of_ne _ _ hn]
  rw [same]
  exact rel_refl refl _

/-! ### What an insertion looks at -/

theorem insertField_below_ok {name : String} {rest : List String} {a : α}
    {root inner inner' : Table (Tree α)} (some_rest : rest ≠ [])
    (below : inner? root name = some inner) (run : insertField rest a inner = .ok inner') :
    insertField (name :: rest) a root = .ok (Table.insert root name (.branch inner')) := by
  unfold insertField at run ⊢
  rw [changeAt_cons some_rest, below]
  dsimp only
  rw [run]

theorem insertField_below_error {name : String} {rest blocking : List String} {a : α}
    {root inner : Table (Tree α)} (some_rest : rest ≠ []) (below : inner? root name = some inner)
    (run : insertField rest a inner = .error blocking) :
    insertField (name :: rest) a root = .error (name :: blocking) := by
  unfold insertField at run ⊢
  rw [changeAt_cons some_rest, below]
  dsimp only
  rw [run]

/-- An insertion looks at what stands under the first of its segments, and changes nothing else. -/
theorem insertField_under (name : String) (rest : List String) (a : α) (here : Option (Tree α)) :
    ∃ r : Except (List String) (Tree α), ∀ root : Table (Tree α), Table.get? root name = here →
      insertField (name :: rest) a root = r.map (Table.insert root name) := by
  cases rest with
  | nil => exact ⟨.ok (.field a), fun _ _ => rfl⟩
  | cons s rest =>
    have some_rest : s :: rest ≠ [] := List.cons_ne_nil s rest
    obtain ⟨inner?', below⟩ : ∃ o, ∀ root : Table (Tree α), Table.get? root name = here →
        inner? root name = o := ⟨_, fun root same => by rw [inner?, same]⟩
    cases inner?' with
    | none =>
      refine ⟨.error [name], fun root same => ?_⟩
      rw [insertField, changeAt_cons some_rest, below root same]
      rfl
    | some inner =>
      cases run : insertField (s :: rest) a inner with
      | error blocking =>
        exact ⟨.error (name :: blocking), fun root same =>
          insertField_below_error some_rest (below root same) run⟩
      | ok inner' =>
        exact ⟨.ok (.branch inner'), fun root same =>
          insertField_below_ok some_rest (below root same) run⟩

/-- What blocks an insertion is on its way. -/
theorem prefix_of_blocking {a : α} : ∀ {segments blocking : List String} {root : Table (Tree α)},
    insertField segments a root = .error blocking → blocking ≠ [] ∧ blocking <+: segments
  | [], _, _, failed => by cases failed
  | [_], _, _, failed => by cases failed
  | name :: s :: rest, blocking, root, failed => by
    have some_rest : s :: rest ≠ [] := List.cons_ne_nil s rest
    cases below : inner? root name with
    | none =>
      rw [insertField, changeAt_cons some_rest, below] at failed
      cases failed
      exact ⟨List.cons_ne_nil _ _, s :: rest, rfl⟩
    | some inner =>
      cases run : insertField (s :: rest) a inner with
      | ok inner' => cases failed.symm.trans (insertField_below_ok some_rest below run)
      | error blocking' =>
        cases failed.symm.trans (insertField_below_error some_rest below run)
        exact ⟨List.cons_ne_nil _ _, (List.prefix_cons_inj name).2 (prefix_of_blocking run).2⟩

/-! ### Two insertions -/

/-- What one insertion does to another one that lies apart: either this fails before and after it,
with the same answer, or the two can be made in any order, and the trees come out alike. -/
inductive Swap (R : α → α → Prop) (p q : List String) (a b : α) (root rootP : Table (Tree α)) : Prop
  | fails {blocking : List String} (before : insertField q b root = .error blocking)
      (after : insertField q b rootP = .error blocking) : Swap R p q a b root rootP
  | swaps {rootQ rootPQ rootQP : Table (Tree α)} (before : insertField q b root = .ok rootQ)
      (after : insertField q b rootP = .ok rootPQ) (back : insertField p a rootQ = .ok rootQP)
      (alike : Alike R (.branch rootPQ) (.branch rootQP)) : Swap R p q a b root rootP

theorem swap_of_apart {R : α → α → Prop} (refl : ∀ a, R a a) {a b : α} :
    ∀ {p q : List String} {root rootP : Table (Tree α)}, ¬ p <+: q → ¬ q <+: p →
      insertField p a root = .ok rootP → Swap R p q a b root rootP
  | [], _, _, _, hp, _, _ => absurd List.nil_prefix hp
  | _ :: _, [], _, _, _, hq, _ => absurd List.nil_prefix hq
  | name :: rest, other :: rest', root, rootP, hp, hq, run => by
    by_cases same : name = other
    · subst same
      -- the two places share a name, so they lie apart below it
      rw [List.prefix_cons_inj] at hp hq
      have some_rest : rest ≠ [] := by
        rintro rfl
        exact hp List.nil_prefix
      have some_rest' : rest' ≠ [] := by
        rintro rfl
        exact hq List.nil_prefix
      obtain ⟨inner, innerP, below, run', rfl⟩ := changeAt_cons_ok some_rest run
      have below' : ∀ x, inner? (Table.insert root name (.branch x)) name = some x :=
        fun x => inner?_of_branch (Table.get?_insert_self _ _ _)
      cases swap_of_apart (b := b) refl hp hq run' with
      | fails before after =>
        exact .fails (insertField_below_error some_rest' below before)
          (insertField_below_error some_rest' (below' innerP) after)
      | @swaps innerQ innerPQ innerQP before after back alike =>
        have after' := insertField_below_ok some_rest' (below' innerP) after
        have back' := insertField_below_ok some_rest (below' innerQ) back
        rw [Table.insert_insert] at after' back'
        exact .swaps (insertField_below_ok some_rest' below before) after' back'
          ((Alike.refl refl _).insert name alike)
    · -- under different names neither insertion sees the other one
      obtain ⟨r, first⟩ := insertField_under name rest a (Table.get? root name)
      obtain ⟨r', second⟩ := insertField_under other rest' b (Table.get? root other)
      cases r with
      | error blocking => cases run.symm.trans (first root rfl)
      | ok x =>
        cases run.symm.trans (first root rfl)
        have after := second _ (Table.get?_insert_of_ne root x (Ne.symm same))
        cases r' with
        | error blocking => exact .fails (second root rfl) after
        | ok y =>
          have back := first _ (Table.get?_insert_of_ne root y same)
          exact .swaps (second root rfl) after back (.insert_comm refl root same x y)

end DocSchema.Tree
