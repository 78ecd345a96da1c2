import DocSchema.Proofs.Table.Keys
import DocSchema.Tree

/-!
# What an insertion changes in a tree

`Placed segments x root root'` says all that a successful insertion does: `x` stands at the
segments, branches lead to it, and every place apart from this line is as before. Both insertions
meet it (`insertField_placed`, `insertVirtual_placed`). Since a field and a virtual have nothing
below them, an insertion that replaces no branch leaves all other fields and virtuals where they
were and brings no other ones (`Placed.leaf_survives`, `Placed.leaf_was_there`).
-/

namespace DocSchema.Tree

variable {α : Type}

def isBranch : Tree α → Bool
  | .branch _ => true
  | _ => false

/-- The children below a name: none where the name is free, and no answer where it is bound to a
field or a virtual. -/
def inner? (children : Table (Tree α)) (name : String) : Option (Table (Tree α)) :=
  match Table.get? children name with
  | none => some []
  | some (.branch inner) => some inner
  | some _ => none

theorem inner?_of_free {children : Table (Tree α)} {name : String}
    (h : Table.get? children name = none) : inner? children name = some [] := by
  rw [inner?, h]

theorem inner?_of_branch {children inner : Table (Tree α)} {name : String}
    (h : Table.get? children name = some (.branch inner)) : inner? children name = some inner := by
  rw [inner?, h]

theorem inner?_eq_some_iff {children inner : Table (Tree α)} {name : String} :
    inner? children name = some inner ↔
      Table.get? children name = none ∧ inner = [] ∨
        Table.get? children name = some (.branch inner) := by
  unfold inner?
  cases Table.get? children name with
  | none => simp [eq_comm]
  | some x => cases x <;> simp

theorem inner?_eq_none_iff {children : Table (Tree α)} {name : String} :
    inner? children name = none ↔
      ∃ x, Table.get? children name = some x ∧ x.isBranch = false := by
  unfold inner?
  cases Table.get? children name with
  | none => simp
  | some x => cases x <;> simp [isBranch]

/-! ### Reading -/

@[simp] theorem get?_nil (root : Table (Tree α)) : get? [] root = none := rfl

@[simp] theorem get?_singleton (name : String) (root : Table (Tree α)) :
    get? [name] root = Table.get? root name := rfl

theorem get?_cons_cons (name next : String) (rest : List String) (root : Table (Tree α)) :
    get? (name :: next :: rest) root =
      match Table.get? root name with
      | some (.branch inner) => get? (next :: rest) inner
      | _ => none := rfl

theorem get?_empty (segments : List String) : get? segments ([] : Table (Tree α)) = none := by
  match segments with
  | [] => rfl
  | [_] => rfl
  | _ :: _ :: _ => rfl

/-- Below a name, a tree is read in the children that the name leads to. -/
theorem get?_cons {name : String} {rest : List String} {root inner : Table (Tree α)}
    (hr : rest ≠ []) (h : inner? root name = some inner) :
    get? (name :: rest) root = get? rest inner := by
  cases rest with
  | nil => exact absurd rfl hr
  | cons s rest =>
    rw [get?_cons_cons]
    rcases inner?_eq_some_iff.1 h with ⟨free, rfl⟩ | branch
    · rw [free, get?_empty]
    · rw [branch]

/-- What stands further down is read from the branch that stands on the way. -/
theorem get?_append :
    ∀ (front rest : List String) (root : Table (Tree α)), front ≠ [] → rest ≠ [] →
      get? (front ++ rest) root =
        match get? front root with
        | some (.branch inner) => get? rest inner
        | _ => none
  | [], _, _, h, _ => absurd rfl h
  | [name], s :: rest, root, _, _ => rfl
  | name :: name' :: front, rest, root, _, hr => by
    have ih := fun inner => get?_append (name' :: front) rest inner (by simp) hr
    rw [List.cons_append, List.cons_append, get?_cons_cons, get?_cons_cons]
    split
    · next inner _ => exact ih inner
    · rfl

theorem get?_below_leaf {front rest : List String} {root : Table (Tree α)} {x : Tree α}
    (hx : x.isBranch = false) (h : get? front root = some x) (hr : rest ≠ []) :
    get? (front ++ rest) root = none := by
  have hf : front ≠ [] := by
    rintro rfl
    cases h
  rw [get?_append front rest root hf hr, h]
  cases x with
  | branch inner => cases hx
  | field a => rfl
  | virtual => rfl

/-- Whatever stands below some segments stands below a branch. -/
theorem branch_of_get?_append {front rest : List String} {root : Table (Tree α)} {x : Tree α}
    (hf : front ≠ []) (hr : rest ≠ []) (h : get? (front ++ rest) root = some x) :
    ∃ inner, get? front root = some (.branch inner) := by
  rw [get?_append front rest root hf hr] at h
  split at h
  · next inner hi => exact ⟨inner, hi⟩
  · cases h

/-! ### Changing -/

/-- A change below a name is a change of the children that the name leads to. -/
theorem changeAt_cons {change : Table (Tree α) → String → Except (List String) (Table (Tree α))}
    {name : String} {rest : List String} {root : Table (Tree α)} (hr : rest ≠ []) :
    changeAt change (name :: rest) root =
      match inner? root name with
      | none => .error [name]
      | some inner =>
        match changeAt change rest inner with
        | .ok inner => .ok (Table.insert root name (.branch inner))
        | .error blocking => .error (name :: blocking) := by
  cases rest with
  | nil => exact absurd rfl hr
  | cons s rest => rfl

theorem changeAt_cons_ok {change : Table (Tree α) → String → Except (List String) (Table (Tree α))}
    {name : String} {rest : List String} {root root' : Table (Tree α)} (hr : rest ≠ [])
    (h : changeAt change (name :: rest) root = .ok root') :
    ∃ inner inner', inner? root name = some inner ∧ changeAt change rest inner = .ok inner' ∧
      root' = Table.insert root name (.branch inner') := by
  rw [changeAt_cons hr] at h
  split at h
  · cases h
  · next inner hi =>
    split at h
    · next inner' hc => exact ⟨inner, inner', hi, hc, (Except.ok.inj h).symm⟩
    · cases h

/-- Nothing is in the way in an empty tree. -/
theorem changeAt_empty {change : Table (Tree α) → String → Except (List String) (Table (Tree α))}
    (fresh : ∀ last, ∃ children, change [] last = .ok children) (segments : List String) :
    ∃ root, changeAt change segments [] = .ok root := by
  induction segments with
  | nil => exact ⟨[], rfl⟩
  | cons name rest ih =>
    cases rest with
    | nil => exact fresh name
    | cons next rest =>
      obtain ⟨inner, hi⟩ := ih
      rw [changeAt_cons (List.cons_ne_nil next rest), inner?_of_free (Table.get?_nil name)]
      dsimp only
      rw [hi]
      exact ⟨_, rfl⟩

theorem insertField_empty (segments : List String) (a : α) :
    ∃ root, insertField segments a [] = .ok root :=
  changeAt_empty (fun _ => ⟨_, rfl⟩) segments

/-- What a successful insertion of a node does. -/
structure Placed (segments : List String) (x : Tree α) (root root' : Table (Tree α)) : Prop where
  self : get? segments root' = some x
  /-- The way to the node led through branches and free names. -/
  was_open : ∀ front rest, front ≠ [] → rest ≠ [] → front ++ rest = segments →
    get? front root = none ∨ ∃ inner, get? front root = some (.branch inner)
  apart : ∀ other, ¬ other <+: segments → ¬ segments <+: other → get? other root' = get? other root

/-- A change that puts a node under its name and touches no other name places this node. -/
theorem changeAt_placed {change : Table (Tree α) → String → Except (List String) (Table (Tree α))}
    {x : Tree α}
    (hx : ∀ {children last children'}, change children last = .ok children' →
      Table.get? children' last = some x ∧
        ∀ other, other ≠ last → Table.get? children' other = Table.get? children other) :
    ∀ {segments : List String} {root root' : Table (Tree α)}, segments ≠ [] →
      changeAt change segments root = .ok root' → Placed segments x root root'
  | [], _, _, hs, _ => absurd rfl hs
  | [last], root, root', _, h => by
    obtain ⟨hself, hother⟩ := hx h
    refine ⟨hself, ?_, ?_⟩
    · intro front rest hf hr he
      rcases List.append_eq_singleton_iff.1 he with ⟨h, -⟩ | ⟨-, h⟩
      · exact absurd h hf
      · exact absurd h hr
    · intro other hp hs
      match other with
      | [] => rfl
      | [k] =>
        refine hother k ?_
        rintro rfl
        exact hp (List.prefix_refl _)
      | k :: k' :: other =>
        have hk : k ≠ last := by
          rintro rfl
          exact hs ⟨k' :: other, rfl⟩
        rw [get?_cons_cons, get?_cons_cons, hother k hk]
  | name :: s :: rest, root, root', _, h => by
    obtain ⟨inner, inner', hi, hc, rfl⟩ := changeAt_cons_ok (by simp) h
    have ih := changeAt_placed hx (by simp) hc
    have hi' : inner? (Table.insert root name (.branch inner')) name = some inner' :=
      inner?_of_branch (Table.get?_insert_self _ _ _)
    refine ⟨?_, ?_, ?_⟩
    · rw [get?_cons (by simp) hi']
      exact ih.self
    · intro front rest' hf hr he
      match front with
      | [] => exact absurd rfl hf
      | [k] =>
        obtain ⟨rfl, -⟩ := List.cons.inj he
        rw [get?_singleton]
        rcases inner?_eq_some_iff.1 hi with ⟨free, -⟩ | branch
        · exact .inl free
        · exact .inr ⟨inner, branch⟩
      | k :: k' :: front =>
        have he' := List.cons.inj he
        rw [he'.1, get?_cons (by simp) hi]
        exact ih.was_open (k' :: front) rest' (by simp) hr he'.2
    · intro other hp hs
      -- a place that shares the first name is read in the branch that was changed
      match other with
      | [] => rfl
      | [k] =>
        refine Table.get?_insert_of_ne _ _ ?_
        rintro rfl
        exact hp ⟨s :: rest, rfl⟩
      | k :: k' :: other =>
        by_cases hk : k = name
        · subst hk
          rw [get?_cons (by simp) hi', get?_cons (by simp) hi]
          refine ih.apart _ (fun hp' => hp ?_) (fun hs' => hs ?_)
          · exact (List.prefix_cons_inj k).2 hp'
          · exact (List.prefix_cons_inj k).2 hs'
        · rw [get?_cons_cons, get?_cons_cons, Table.get?_insert_of_ne _ _ hk]

theorem insertField_placed {segments : List String} {a : α} {root root' : Table (Tree α)}
    (hs : segments ≠ []) (h : insertField segments a root = .ok root') :
    Placed segments (.field a) root root' := by
  refine changeAt_placed ?_ hs h
  intro children last children' hc
  cases hc
  exact ⟨Table.get?_insert_self _ _ _, fun other ho => Table.get?_insert_of_ne _ _ ho⟩

theorem insertVirtual_placed {segments : List String} {root root' : Table (Tree α)}
    (hs : segments ≠ []) (h : insertVirtual segments root = .ok root') :
    Placed segments .virtual root root' := by
  refine changeAt_placed ?_ hs h
  intro children last children' hc
  split at hc
  · cases hc
    exact ⟨Table.get?_insert_self _ _ _, fun other ho => Table.get?_insert_of_ne _ _ ho⟩
  · next hv =>
    cases hc
    exact ⟨hv, fun _ _ => rfl⟩
  · cases hc

/-- A virtual only goes where there was nothing or a virtual. -/
theorem insertVirtual_was_free :
    ∀ {segments : List String} {root root' : Table (Tree α)},
      insertVirtual segments root = .ok root' →
        get? segments root = none ∨ get? segments root = some .virtual
  | [], _, _, _ => .inl rfl
  | [last], root, root', h => by
    rw [get?_singleton]
    simp only [insertVirtual, changeAt] at h
    split at h
    · next hg => exact .inl hg
    · next hg => exact .inr hg
    · cases h
  | name :: s :: rest, root, root', h => by
    obtain ⟨inner, inner', hi, hc, -⟩ := changeAt_cons_ok (by simp) h
    rw [get?_cons (by simp) hi]
    exact insertVirtual_was_free hc

namespace Placed

variable {segments : List String} {x : Tree α} {root root' : Table (Tree α)}

/-- What is neither above nor below the segments is apart from them. -/
theorem cases_on {motive : Prop} (segments other : List String)
    (self : other = segments → motive)
    (above : ∀ rest, rest ≠ [] → other ++ rest = segments → motive)
    (below : ∀ rest, rest ≠ [] → segments ++ rest = other → motive)
    (apart : ¬ other <+: segments → ¬ segments <+: other → motive) : motive := by
  by_cases hp : other <+: segments
  · obtain ⟨rest, hr⟩ := hp
    cases rest with
    | nil => exact self (by simpa using hr)
    | cons s rest => exact above _ (by simp) hr
  · by_cases hs : segments <+: other
    · obtain ⟨rest, hr⟩ := hs
      cases rest with
      | nil => exact self (by simpa using hr.symm)
      | cons s rest => exact below _ (by simp) hr
    · exact apart hp hs

/-- Branches lead to the node that was placed. -/
theorem above (h : Placed segments x root root') {front rest : List String} (hf : front ≠ [])
    (hr : rest ≠ []) (he : front ++ rest = segments) :
    ∃ inner, get? front root' = some (.branch inner) := by
  subst he
  exact branch_of_get?_append hf hr h.self

/-- Where no branch is replaced, every other field and virtual stays where it was. -/
theorem leaf_survives (h : Placed segments x root root')
    (hb : ∀ inner, get? segments root ≠ some (.branch inner)) {other : List String} {y : Tree α}
    (hy : y.isBranch = false) (ho : other ≠ segments) (hg : get? other root = some y) :
    get? other root' = some y := by
  have hne : other ≠ [] := by
    rintro rfl
    cases hg
  refine cases_on segments other (absurd · ho) ?_ ?_ ?_
  · -- above the segments only branches stood
    intro rest hr he
    rcases h.was_open other rest hne hr he with hn | ⟨inner, hi⟩
    · rw [hg] at hn; cases hn
    · rw [hg] at hi
      cases hi
      cases hy
  · -- and what stood below them stood below a branch
    intro rest hr he
    subst he
    have hs : segments ≠ [] := by
      rintro rfl
      cases h.self
    obtain ⟨inner, hi⟩ := branch_of_get?_append hs hr hg
    exact absurd hi (hb inner)
  · intro hp hs
    rw [h.apart other hp hs, hg]

/-- Every other field and virtual that is there now was there before. -/
theorem leaf_was_there (h : Placed segments x root root') (hx : x.isBranch = false)
    {other : List String} {y : Tree α} (hy : y.isBranch = false) (ho : other ≠ segments)
    (hg : get? other root' = some y) : get? other root = some y := by
  have hne : other ≠ [] := by
    rintro rfl
    cases hg
  refine cases_on segments other (absurd · ho) ?_ ?_ ?_
  · intro rest hr he
    obtain ⟨inner, hi⟩ := h.above hne hr he
    rw [hg] at hi
    cases hi
    cases hy
  · intro rest hr he
    subst he
    rw [get?_below_leaf hx h.self hr] at hg
    cases hg
  · intro hp hs
    rw [← h.apart other hp hs, hg]

/-- A node at the top of the tree may be replaced, but it is not removed. -/
theorem exists_top (h : Placed segments x root root') {name : String} {y : Tree α}
    (bound : get? [name] root = some y) : ∃ z, get? [name] root' = some z := by
  refine cases_on segments [name] ?self ?above ?below ?apart
  case self =>
    rintro rfl
    exact ⟨x, h.self⟩
  case above =>
    intro rest more split
    obtain ⟨inner, branch⟩ := h.above (List.cons_ne_nil name []) more split
    exact ⟨_, branch⟩
  case below =>
    intro rest more split
    rcases List.append_eq_singleton_iff.1 split with ⟨rfl, -⟩ | ⟨-, nothing⟩
    · cases h.self
    · exact absurd nothing more
  case apart =>
    intro notAbove notBelow
    exact ⟨y, (h.apart [name] notAbove notBelow).trans bound⟩

end Placed

end DocSchema.Tree
