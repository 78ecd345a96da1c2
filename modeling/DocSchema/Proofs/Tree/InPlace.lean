import DocSchema.Proofs.Path.Positions
import DocSchema.Proofs.Tree.Binding

/-!
# Trees that are changed in place

Where a tree is changed in place, a walk along a path makes the branches that are missing as it
comes to them, and a walk that fails cannot take them back. It never has to: what fails is a field
or a virtual that was there, and below a branch that is new there is neither
(`changeAt_empty`). So a tree that is changed in place is left as if it had only been replaced on
success (`walk_eq`).

`insertion_in_place` says for every path what the two insertions do to a tree, and when and at which
path they fail.
-/

namespace DocSchema.Tree

variable {α ε : Type}

/-! ### Walking in place -/

/-- The tree that a change in place leaves, and what came of the change. -/
abbrev Left (α ε : Type) := Table (Tree α) × Except ε Unit

/-- Walk to the branch that holds the last segment and change it there. A missing branch is made
when the walk comes to it, and stays made whatever comes of the rest. -/
def walk (change : Table (Tree α) → String → Left α (List String)) :
    List String → Table (Tree α) → Left α (List String)
  | [], children => (children, .ok ())
  | [last], children => change children last
  | s :: rest, children =>
    let children := Table.insertNew children s (.branch [])
    match Table.get? children s with
    | some (.branch inner) =>
      let (inner, outcome) := walk change rest inner
      (Table.insert children s (.branch inner), outcome.mapError (s :: ·))
    | _ => (children, .error [s])

/-- Store a field under a name, whatever the name was bound to. -/
def putField (a : α) (children : Table (Tree α)) (last : String) : Left α (List String) :=
  (Table.insert children last (.field a), .ok ())

/-- Store a virtual under a name that is free. -/
def putVirtual (children : Table (Tree α)) (last : String) : Left α (List String) :=
  match Table.get? children last with
  | none => (Table.insert children last .virtual, .ok ())
  | some .virtual => (children, .ok ())
  | some _ => (children, .error [last])

/-- An outcome with its error as a path. -/
def Left.named (left : Left α (List String)) : Left α String := (left.1, left.2.mapError Path.join)

/-- Bind a path to a field, in place. -/
def bindField (path : String) (a : α) (root : Table (Tree α)) : Left α String :=
  Left.named (walk (putField a) (Path.segments path) root)

def bindVirtual (path : String) (root : Table (Tree α)) : Left α String :=
  Left.named (walk putVirtual (Path.segments path) root)

/-- A tree that is only replaced on success. -/
def settle (root : Table (Tree α)) : Except ε (Table (Tree α)) → Left α ε
  | .ok root' => (root', .ok ())
  | .error blocking => (root, .error blocking)

@[simp] theorem named_settle_ok (root root' : Table (Tree α)) :
    Left.named (settle root (.ok root')) = (root', .ok ()) := rfl

@[simp] theorem named_settle_error (root : Table (Tree α)) (blocking : List String) :
    Left.named (settle root (.error blocking)) = (root, .error (Path.join blocking)) := rfl

section

variable {put : Table (Tree α) → String → Left α (List String)} {name : String}
  {rest : List String} {root inner : Table (Tree α)}

theorem walk_cons (some_rest : rest ≠ []) :
    walk put (name :: rest) root =
      match Table.get? (Table.insertNew root name (.branch [])) name with
      | some (.branch inner) =>
        (Table.insert (Table.insertNew root name (.branch [])) name
            (.branch (walk put rest inner).1),
          (walk put rest inner).2.mapError (name :: ·))
      | _ => (Table.insertNew root name (.branch []), .error [name]) := by
  cases rest with
  | nil => exact absurd rfl some_rest
  | cons s rest => rfl

/-- A walk goes on in the children that a name leads to. -/
theorem walk_open (some_rest : rest ≠ []) (below : inner? root name = some inner) :
    walk put (name :: rest) root =
      (Table.insert root name (.branch (walk put rest inner).1),
        (walk put rest inner).2.mapError (name :: ·)) := by
  rw [walk_cons some_rest]
  rcases inner?_eq_some_iff.1 below with ⟨free, rfl⟩ | branch
  · rw [Table.insertNew_of_free _ free, Table.get?_insert_self]
    exact Prod.ext (Table.insert_insert root name _ _) rfl
  · rw [Table.insertNew_of_get? _ branch, branch]

/-- A walk stops at a name that is bound to a field or a virtual, and has made nothing there. -/
theorem walk_stopped (some_rest : rest ≠ []) (leaf : inner? root name = none) :
    walk put (name :: rest) root = (root, .error [name]) := by
  obtain ⟨x, here, isLeaf⟩ := inner?_eq_none_iff.1 leaf
  rw [walk_cons some_rest, Table.insertNew_of_get? _ here, here]
  cases x with
  | branch inner => cases isLeaf
  | field a => rfl
  | virtual => rfl

end

/-- A walk in place leaves what a change gives back, and the tree as it was where the change
fails. -/
theorem walk_eq {put : Table (Tree α) → String → Left α (List String)}
    {change : Table (Tree α) → String → Except (List String) (Table (Tree α))}
    (agree : ∀ children last, put children last = settle children (change children last))
    (fresh : ∀ last, ∃ children, change [] last = .ok children) :
    ∀ (segments : List String) (root : Table (Tree α)),
      walk put segments root = settle root (changeAt change segments root)
  | [], _ => rfl
  | [last], root => agree root last
  | name :: s :: rest, root => by
    have some_rest : s :: rest ≠ [] := List.cons_ne_nil s rest
    rw [changeAt_cons some_rest]
    cases below : inner? root name with
    | none =>
      rw [walk_stopped some_rest below]
      rfl
    | some inner =>
      rw [walk_open some_rest below, walk_eq agree fresh (s :: rest) inner]
      dsimp only
      cases run : changeAt change (s :: rest) inner with
      | ok inner' => rfl
      | error blocking =>
        rcases inner?_eq_some_iff.1 below with ⟨-, rfl⟩ | there
        · -- nothing fails in a branch that the walk has made
          obtain ⟨inner', done⟩ := changeAt_empty fresh (s :: rest)
          rw [done] at run
          cases run
        · exact Prod.ext (Table.insert_of_get? there) rfl

/-- Binding a field in place leaves what the insertion of the field gives. -/
theorem bindField_eq (path : String) (a : α) (root : Table (Tree α)) :
    bindField path a root =
      Left.named (settle root (insertField (Path.segments path) a root)) := by
  have agree : ∀ (children : Table (Tree α)) last, putField a children last =
      settle children (.ok (Table.insert children last (.field a))) := fun _ _ => rfl
  rw [bindField, insertField, walk_eq agree fun last => ⟨[(last, .field a)], rfl⟩]

/-- Binding a virtual in place leaves what the insertion of the virtual gives. -/
theorem bindVirtual_eq (path : String) (root : Table (Tree α)) :
    bindVirtual path root =
      Left.named (settle root (insertVirtual (Path.segments path) root)) := by
  have agree : ∀ (children : Table (Tree α)) last, putVirtual children last =
      settle children (match Table.get? children last with
        | none => .ok (Table.insert children last .virtual)
        | some .virtual => .ok children
        | some _ => .error [last]) := by
    intro children last
    unfold putVirtual
    split <;> rfl
  rw [bindVirtual, walk_eq agree fun last => ⟨[(last, .virtual)], rfl⟩]
  rfl

/-! ### What an insertion does -/

/-- Whether a path is bound to a field or a virtual. -/
def HasLeaf (path : String) (root : Table (Tree α)) : Prop :=
  ∃ x, get? (Path.segments path) root = some x ∧ x.isBranch = false

/-- What stands on the way to a path is bound to a path above it. -/
theorem leafOnWay_segments_iff {path : String} {blocking : List String}
    {root : Table (Tree α)} :
    LeafOnWay (Path.segments path) blocking root ↔
      ∃ front, blocking = Path.segments front ∧ Path.isBelow front path = true ∧
        HasLeaf front root := by
  constructor
  · rintro ⟨⟨x, there, leaf⟩, rest, more, split⟩
    have some_name : blocking ≠ [] := by
      rintro rfl
      cases there
    have dots : ∀ n ∈ blocking, '.' ∉ n.toList := by
      intro n known
      have within : n ∈ Path.segments path := split ▸ List.mem_append_left rest known
      exact Path.not_mem_of_mem_segments within
    have same : Path.segments (Path.join blocking) = blocking :=
      Path.segments_join blocking some_name dots
    refine ⟨Path.join blocking, same.symm, ?_, x, same.symm ▸ there, leaf⟩
    exact Path.isBelow_iff_segments.2 ⟨rest, more, same.symm ▸ split.symm⟩
  · rintro ⟨front, rfl, below, leaf⟩
    obtain ⟨rest, more, split⟩ := Path.isBelow_iff_segments.1 below
    exact ⟨leaf, rest, more, split.symm⟩

/-- What a successful insertion of a node at a path does. -/
structure Inserted (path : String) (x : Tree α) (root root' : Table (Tree α)) : Prop where
  self : get? (Path.segments path) root' = some x
  above : ∀ front, Path.isBelow front path = true →
    ∃ children, get? (Path.segments front) root' = some (.branch children)
  apart : ∀ other, Path.Apart other path →
    get? (Path.segments other) root' = get? (Path.segments other) root

/-- What an insertion in place does to a tree, where `taken` says when the path itself cannot be
bound. -/
structure Insertion (path : String) (x : Tree α) (taken : Prop) (root : Table (Tree α))
    (left : Left α String) : Prop where
  /-- It fails at a field or a virtual above the path, or at the path itself. -/
  fails_iff : ∀ blocking, left.2 = .error blocking ↔
    Path.isBelow blocking path = true ∧ HasLeaf blocking root ∨ blocking = path ∧ taken
  unchanged : ∀ blocking, left.2 = .error blocking → left.1 = root
  inserted : left.2 = .ok () → Inserted path x root left.1

theorem Placed.inserted {path : String} {x : Tree α} {root root' : Table (Tree α)}
    (h : Placed (Path.segments path) x root root') : Inserted path x root root' := by
  constructor
  case self => exact h.self
  case above =>
    intro front below
    obtain ⟨rest, more, split⟩ := Path.isBelow_iff_segments.1 below
    exact h.above (Path.segments_ne_nil front) more split.symm
  case apart =>
    intro other apart
    exact h.apart _ apart.segments_apart apart.symm.segments_apart

/-- What is in the way of an insertion at a path, as a path. -/
theorem blocking_iff {path front : String} {taken : Prop} {root : Table (Tree α)} :
    LeafOnWay (Path.segments path) (Path.segments front) root ∨
        Path.segments front = Path.segments path ∧ taken ↔
      Path.isBelow front path = true ∧ HasLeaf front root ∨ front = path ∧ taken := by
  have same {a b : String} : Path.segments a = Path.segments b ↔ a = b :=
    ⟨Path.segments_injective, congrArg Path.segments⟩
  simp only [leafOnWay_segments_iff, same, exists_eq_left']

/-- An insertion that replaces the tree only on success, and names what is in its way. -/
theorem insertion_settle {path : String} {x : Tree α} {taken : Prop} {root : Table (Tree α)}
    {run : Except (List String) (Table (Tree α))}
    (fails : ∀ blocking, run = .error blocking ↔
      LeafOnWay (Path.segments path) blocking root ∨ blocking = Path.segments path ∧ taken)
    (placed : ∀ root', run = .ok root' → Placed (Path.segments path) x root root') :
    Insertion path x taken root (Left.named (settle root run)) := by
  constructor
  case fails_iff =>
    intro front
    rw [← blocking_iff, ← fails]
    cases run with
    | ok root' => simp
    | error blocking =>
      obtain ⟨q, rfl⟩ : ∃ q, blocking = Path.segments q := by
        rcases (fails blocking).1 rfl with onWay | ⟨same, -⟩
        · obtain ⟨q, same, -⟩ := leafOnWay_segments_iff.1 onWay
          exact ⟨q, same⟩
        · exact ⟨path, same⟩
      rw [named_settle_error, Path.join_segments, Except.error.injEq, Except.error.injEq]
      exact ⟨congrArg Path.segments, Path.segments_injective⟩
  case unchanged =>
    intro front failed
    cases run with
    | ok root' => cases failed
    | error blocking => rfl
  case inserted =>
    intro succeeded
    cases run with
    | ok root' => exact (placed root' rfl).inserted
    | error blocking => cases succeeded

/-- Whether every node that was there is still there: a field or a virtual as it was, and a branch
as a branch. -/
def Keeps (root root' : Table (Tree α)) : Prop :=
  ∀ path x, get? (Path.segments path) root = some x →
    ∃ y, get? (Path.segments path) root' = some y ∧
      (y = x ∨ x.isBranch = true ∧ y.isBranch = true)

/-- A virtual goes where nothing was or a virtual, so no node is replaced and none is lost. -/
theorem keeps_insertVirtual {path : String} {root root' : Table (Tree α)}
    (run : insertVirtual (Path.segments path) root = .ok root') : Keeps root root' := by
  have placed := insertVirtual_placed (Path.segments_ne_nil path) run
  have free := insertVirtual_was_free run
  intro other x there
  refine Placed.cases_on (Path.segments path) (Path.segments other) ?self ?above ?below ?apart
  case self =>
    intro same
    rw [same] at there ⊢
    rcases free with none | isVirtual
    · rw [there] at none
      cases none
    · exact ⟨.virtual, placed.self, .inl (Option.some.inj (isVirtual.symm.trans there))⟩
  case above =>
    intro rest more split
    have given := Path.segments_ne_nil other
    obtain ⟨children, branch⟩ := placed.above given more split
    rcases placed.was_open _ rest given more split with none | ⟨inner, open_before⟩
    · rw [there] at none
      cases none
    · rw [there] at open_before
      cases open_before
      exact ⟨.branch children, branch, .inr ⟨rfl, rfl⟩⟩
  case below =>
    intro rest more split
    rw [← split] at there
    obtain ⟨inner, branch⟩ := branch_of_get?_append (Path.segments_ne_nil path) more there
    rw [branch] at free
    simp at free
  case apart =>
    intro notAbove notBelow
    exact ⟨x, (placed.apart _ notAbove notBelow).trans there, .inl rfl⟩

/-- Binding a path in place leaves what the insertion of the same node gives, for every tree. It
fails at a field or a virtual above the path, and that of a virtual also where the path is bound to
a field or a branch; the tree is then as it was. Else the node stands at the path, below branches,
and nothing apart from the path has changed. A virtual takes no place from another node. -/
theorem insertion_in_place (path : String) (a : α) (root : Table (Tree α)) :
    bindField path a root =
        Left.named (settle root (insertField (Path.segments path) a root)) ∧
      Insertion path (.field a) False root (bindField path a root) ∧
      bindVirtual path root =
        Left.named (settle root (insertVirtual (Path.segments path) root)) ∧
      Insertion path .virtual (∃ x, get? (Path.segments path) root = some x ∧ x ≠ .virtual) root
        (bindVirtual path root) ∧
      Keeps root (bindVirtual path root).1 := by
  have some_name := Path.segments_ne_nil path
  refine ⟨bindField_eq path a root, ?field, bindVirtual_eq path root, ?virtual, ?keeps⟩
  case field =>
    rw [bindField_eq]
    refine insertion_settle (fun blocking => ?_) fun _ run => insertField_placed some_name run
    rw [insertField_error_iff some_name, and_false, or_false]
  case virtual =>
    rw [bindVirtual_eq]
    refine insertion_settle (fun blocking => ?_) fun _ run => insertVirtual_placed some_name run
    rw [insertVirtual_error_iff some_name]
  case keeps =>
    rw [bindVirtual_eq]
    cases run : insertVirtual (Path.segments path) root with
    | ok root' => exact keeps_insertVirtual run
    | error blocking => exact fun other x there => ⟨x, there, .inl rfl⟩

/-- Below a field there is no place. The branch on the way to the field is left as it was. -/
example : bindField "b.c.d" 3 [("a", .field 1), ("b", .branch [("c", .field 2)])] =
    ([("a", .field 1), ("b", .branch [("c", .field 2)])], .error "b.c") := by rfl

end DocSchema.Tree
