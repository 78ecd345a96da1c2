import DocSchema.Proofs.Tree.Frame

/-!
# What becomes of a tree where a field is bound

An insertion either fails at a field or a virtual on its way, and then the tree is not touched
(`insertField_blocked`), or it binds the segments. Where it replaces no branch, this is all that it
does (`insertField_bound`): branches lead to the field, everything that is not on its way stays as
it was, and at every branch on the way one child is stored, in its place or behind the others.

A virtual is inserted in the same way, but it takes the place of no field and no branch
(`insertVirtual_error_iff`).
-/

namespace DocSchema.Tree

variable {α : Type}

/-- The children of the branch at some segments, if there is one, and those of the root at none. -/
def childrenAt : List String → Table (Tree α) → Table (Tree α)
  | [], root => root
  | name :: rest, root => childrenAt rest ((inner? root name).getD [])

theorem childrenAt_cons {name : String} {root inner : Table (Tree α)}
    (h : inner? root name = some inner) (rest : List String) :
    childrenAt (name :: rest) root = childrenAt rest inner := by
  rw [childrenAt, h, Option.getD_some]

/-- Binding some segments to a node, and nothing else. -/
structure Bound (segments : List String) (x : Tree α) (root root' : Table (Tree α)) : Prop where
  self : get? segments root' = some x
  /-- What leads to the node are branches, which were there or are new. -/
  way : ∀ front rest, front ≠ [] → rest ≠ [] → front ++ rest = segments →
    (∃ inner, get? front root' = some (.branch inner)) ∧
      (get? front root = none ∨ ∃ inner, get? front root = some (.branch inner))
  /-- What is not on the way stays as it was. -/
  elsewhere : ∀ other, ¬ other <+: segments → get? other root' = get? other root
  /-- At every branch on the way, one child is stored. -/
  order : ∀ front name rest, front ++ name :: rest = segments →
    ∃ y, childrenAt front root' = Table.insert (childrenAt front root) name y

/-- At every branch on the way, an insertion stores one child. -/
theorem insertField_order {a : α} :
    ∀ {segments : List String} {root root' : Table (Tree α)},
      insertField segments a root = .ok root' →
        ∀ front name rest, front ++ name :: rest = segments →
          ∃ y, childrenAt front root' = Table.insert (childrenAt front root) name y
  | [], _, _, _, front, name, rest, split => by
    exact absurd (List.append_eq_nil_iff.1 split).2 (List.cons_ne_nil name rest)
  | [last], root, root', run, front, name, rest, split => by
    cases run
    rcases List.append_eq_singleton_iff.1 split with ⟨rfl, one⟩ | ⟨-, none⟩
    · obtain ⟨rfl, -⟩ := List.cons.inj one
      exact ⟨.field a, rfl⟩
    · cases none
  | first :: s :: others, root, root', run, front, name, rest, split => by
    obtain ⟨inner, inner', below, run', rfl⟩ := changeAt_cons_ok (List.cons_ne_nil s others) run
    cases front with
    | nil =>
      obtain ⟨rfl, -⟩ := List.cons.inj split
      exact ⟨.branch inner', rfl⟩
    | cons k front =>
      obtain ⟨rfl, same⟩ := List.cons.inj split
      have below' : inner? (Table.insert root k (.branch inner')) k = some inner' :=
        inner?_of_branch (Table.get?_insert_self _ _ _)
      rw [childrenAt_cons below', childrenAt_cons below]
      exact insertField_order run' front name rest same

/-- Where no branch is replaced, an insertion binds the segments and does nothing else. -/
theorem insertField_bound {segments : List String} {a : α} {root root' : Table (Tree α)}
    (some_name : segments ≠ []) (run : insertField segments a root = .ok root')
    (no_branch : ∀ inner, get? segments root ≠ some (.branch inner)) :
    Bound segments (.field a) root root' := by
  have placed := insertField_placed some_name run
  constructor
  case self => exact placed.self
  case way =>
    intro front rest hf hr split
    exact ⟨placed.above hf hr split, placed.was_open front rest hf hr split⟩
  case elsewhere =>
    intro other off
    by_cases below : segments <+: other
    · -- below the segments there is nothing, neither before nor after
      obtain ⟨rest, rfl⟩ := below
      have hr : rest ≠ [] := by
        rintro rfl
        rw [List.append_nil] at off
        exact off (List.prefix_refl segments)
      rw [get?_below_leaf rfl placed.self hr, get?_append segments rest root some_name hr]
      split
      · next inner branch => exact absurd branch (no_branch inner)
      · rfl
    · exact placed.apart other off below
  case order => exact insertField_order run

/-! ### Insertions that fail -/

theorem get?_concat (front : List String) (last : String) (root : Table (Tree α)) :
    get? (front ++ [last]) root = Table.get? (childrenAt front root) last := by
  induction front generalizing root with
  | nil => rfl
  | cons name front ih =>
    rw [List.cons_append, childrenAt, ← ih]
    cases below : inner? root name with
    | some inner => exact get?_cons (by simp) below
    | none =>
      -- a leaf has no children, just as a name that is free
      rw [Option.getD_none, get?_empty]
      obtain ⟨s, rest, split⟩ := List.exists_cons_of_ne_nil (l := front ++ [last]) (by simp)
      rw [split, get?_cons_cons]
      obtain ⟨x, here, leaf⟩ := inner?_eq_none_iff.1 below
      rw [here]
      cases x with
      | branch inner => cases leaf
      | field a => rfl
      | virtual => rfl

/-- Whether a field or a virtual stands on the way to some segments. -/
def LeafOnWay (segments blocking : List String) (root : Table (Tree α)) : Prop :=
  (∃ x, get? blocking root = some x ∧ x.isBranch = false) ∧
    ∃ rest, rest ≠ [] ∧ blocking ++ rest = segments

theorem LeafOnWay.cons {name : String} {segments blocking : List String}
    {root inner : Table (Tree α)} (h : LeafOnWay segments blocking inner)
    (below : inner? root name = some inner) :
    LeafOnWay (name :: segments) (name :: blocking) root := by
  obtain ⟨⟨x, there, leaf⟩, rest, some_rest, split⟩ := h
  have some_name : blocking ≠ [] := by
    rintro rfl
    cases there
  exact ⟨⟨x, (get?_cons some_name below).trans there, leaf⟩, rest, some_rest,
    by rw [List.cons_append, split]⟩

/-- Nothing is bound at segments that lead through a field or a virtual. -/
theorem LeafOnWay.get?_eq_none {segments blocking : List String} {root : Table (Tree α)}
    (h : LeafOnWay segments blocking root) : get? segments root = none := by
  obtain ⟨⟨x, there, leaf⟩, rest, more, rfl⟩ := h
  exact get?_below_leaf leaf there more

/-- Only one field or virtual stands on the way, since nothing is below it. -/
theorem LeafOnWay.unique {segments a b : List String} {root : Table (Tree α)}
    (ha : LeafOnWay segments a root) (hb : LeafOnWay segments b root) : a = b := by
  obtain ⟨⟨x, bound, leaf⟩, rest, -, split⟩ := ha
  obtain ⟨⟨y, bound', leaf'⟩, rest', -, split'⟩ := hb
  refine Placed.cases_on a b Eq.symm ?above ?below ?apart
  case above =>
    rintro between some_more rfl
    rw [get?_below_leaf leaf' bound' some_more] at bound
    cases bound
  case below =>
    rintro between some_more rfl
    rw [get?_below_leaf leaf bound some_more] at bound'
    cases bound'
  case apart =>
    intro notAbove notBelow
    have frontA : a <+: segments := ⟨rest, split⟩
    have frontB : b <+: segments := ⟨rest', split'⟩
    exact (List.prefix_or_prefix_of_prefix frontA frontB).elim (absurd · notBelow)
      (absurd · notAbove)

/-- No field and no virtual stands on the way of an insertion that succeeds. -/
theorem Placed.not_leafOnWay {segments blocking : List String} {x : Tree α}
    {root root' : Table (Tree α)} (h : Placed segments x root root') :
    ¬ LeafOnWay segments blocking root := by
  rintro ⟨⟨y, there, leaf⟩, rest, more, split⟩
  have given : blocking ≠ [] := by
    rintro rfl
    cases there
  rcases h.was_open blocking rest given more split with free | ⟨inner, branch⟩
  · rw [there] at free
    cases free
  · rw [there] at branch
    cases branch
    cases leaf

/-- A change fails at a field or a virtual on its way, or where it is made. -/
theorem changeAt_blocked
    {change : Table (Tree α) → String → Except (List String) (Table (Tree α))} :
    ∀ {segments blocking : List String} {root : Table (Tree α)},
      changeAt change segments root = .error blocking →
        LeafOnWay segments blocking root ∨
          ∃ front last refused, segments = front ++ [last] ∧ blocking = front ++ refused ∧
            change (childrenAt front root) last = .error refused
  | [], _, _, failed => by cases failed
  | [last], blocking, root, failed => .inr ⟨[], last, blocking, rfl, rfl, failed⟩
  | name :: s :: rest, blocking, root, failed => by
    have some_rest : s :: rest ≠ [] := List.cons_ne_nil s rest
    rw [changeAt_cons some_rest] at failed
    cases below : inner? root name with
    | none =>
      rw [below] at failed
      cases failed
      exact .inl ⟨inner?_eq_none_iff.1 below, s :: rest, some_rest, rfl⟩
    | some inner =>
      rw [below] at failed
      dsimp only at failed
      split at failed
      · cases failed
      · next blocking' run =>
        cases failed
        rcases changeAt_blocked run with leaf | ⟨front, last, refused, split, same, failed⟩
        · exact .inl (leaf.cons below)
        · refine .inr ⟨name :: front, last, refused, ?_, ?_, ?_⟩
          · rw [split, List.cons_append]
          · rw [same, List.cons_append]
          · rwa [childrenAt_cons below]

/-- An insertion fails at a field or a virtual on its way. -/
theorem insertField_blocked {a : α} {segments blocking : List String} {root : Table (Tree α)}
    (failed : insertField segments a root = .error blocking) :
    LeafOnWay segments blocking root := by
  rcases changeAt_blocked failed with leaf | ⟨_, _, _, -, -, refused⟩
  · exact leaf
  · cases refused

/-- The insertion of a virtual also fails where its own name is bound to a field or a branch. -/
theorem insertVirtual_blocked {segments blocking : List String} {root : Table (Tree α)}
    (failed : insertVirtual segments root = .error blocking) :
    LeafOnWay segments blocking root ∨
      blocking = segments ∧ ∃ x, get? segments root = some x ∧ x ≠ .virtual := by
  rcases changeAt_blocked failed with leaf | ⟨front, last, refused, rfl, rfl, refusal⟩
  · exact .inl leaf
  · rw [get?_concat]
    split at refusal
    · cases refusal
    · cases refusal
    · next x other there =>
      cases refusal
      exact .inr ⟨rfl, x, there, other⟩

/-- A field cannot be inserted exactly where a field or a virtual stands on the way, and this is
what the error names. -/
theorem insertField_error_iff {segments blocking : List String} {a : α}
    {root : Table (Tree α)} (some_name : segments ≠ []) :
    insertField segments a root = .error blocking ↔ LeafOnWay segments blocking root := by
  refine ⟨insertField_blocked, fun onWay => ?_⟩
  cases run : insertField segments a root with
  | ok root' => exact absurd onWay (insertField_placed some_name run).not_leafOnWay
  | error blocking' => rw [(insertField_blocked run).unique onWay]

/-- A virtual cannot be inserted exactly where a field or a virtual stands on the way, or where its
own name is bound to a field or a branch, and this is what the error names. -/
theorem insertVirtual_error_iff {segments blocking : List String} {root : Table (Tree α)}
    (some_name : segments ≠ []) :
    insertVirtual segments root = .error blocking ↔
      LeafOnWay segments blocking root ∨
        blocking = segments ∧ ∃ x, get? segments root = some x ∧ x ≠ .virtual := by
  refine ⟨insertVirtual_blocked, fun inWay => ?_⟩
  cases run : insertVirtual segments root with
  | ok root' =>
    exfalso
    rcases inWay with onWay | ⟨-, x, there, other⟩
    · exact (insertVirtual_placed some_name run).not_leafOnWay onWay
    · rcases insertVirtual_was_free run with free | isVirtual
      · rw [there] at free
        cases free
      · rw [there] at isVirtual
        exact other (Option.some.inj isVirtual)
  | error blocking' =>
    rcases insertVirtual_blocked run with onWay' | ⟨rfl, x, there, -⟩
    · rcases inWay with onWay | ⟨-, y, bound, -⟩
      · rw [onWay'.unique onWay]
      · rw [onWay'.get?_eq_none] at bound
        cases bound
    · rcases inWay with onWay | ⟨rfl, -⟩
      · rw [onWay.get?_eq_none] at there
        cases there
      · rfl

theorem insertVirtual_fails_iff {segments : List String} {root : Table (Tree α)}
    (some_name : segments ≠ []) :
    (∃ blocking, insertVirtual segments root = .error blocking) ↔
      (∃ blocking, LeafOnWay segments blocking root) ∨
        ∃ x, get? segments root = some x ∧ x ≠ .virtual := by
  simp only [insertVirtual_error_iff some_name, exists_or, exists_eq_left]

end DocSchema.Tree
