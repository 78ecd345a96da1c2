import DocSchema.Table

/-!
# Trees of names

A tree mirrors how names nest: a branch holds named nodes, and a node is a branch again, a field or
the mark of a virtual. The tree decides which names can be declared beside one another. A path into
the tree is given by its segments.

Inserting below a field or a virtual fails with the segments that lead to it, and a failed insertion
changes nothing, since the new tree is only given back on success.
-/

namespace DocSchema

inductive Tree (α : Type) where
  | branch (children : List (String × Tree α))
  | field (a : α)
  | virtual

namespace Tree

variable {α : Type}

/-- The node at some segments below a branch. -/
def get? : List String → Table (Tree α) → Option (Tree α)
  | [], _ => none
  | [last], children => Table.get? children last
  | s :: rest, children =>
    match Table.get? children s with
    | some (.branch inner) => get? rest inner
    | _ => none

/-- Change the branch that holds the last segment, by its name. Missing branches on the way are
made. -/
def changeAt (change : Table (Tree α) → String → Except (List String) (Table (Tree α))) :
    List String → Table (Tree α) → Except (List String) (Table (Tree α))
  | [], children => .ok children
  | [last], children => change children last
  | s :: rest, children =>
    let inner? :=
      match Table.get? children s with
      | none => some []
      | some (.branch inner) => some inner
      | some _ => none
    match inner? with
    | none => .error [s]
    | some inner =>
      match changeAt change rest inner with
      | .ok inner => .ok (Table.insert children s (.branch inner))
      | .error blocking => .error (s :: blocking)

/-- Bind some segments to a field, whatever they were bound to before. -/
def insertField (segments : List String) (a : α) (root : Table (Tree α)) :
    Except (List String) (Table (Tree α)) :=
  changeAt (fun children last => .ok (Table.insert children last (.field a))) segments root

/-- Bind some segments to a virtual, unless they are bound to a field or a branch. -/
def insertVirtual (segments : List String) (root : Table (Tree α)) :
    Except (List String) (Table (Tree α)) :=
  changeAt
    (fun children last =>
      match Table.get? children last with
      | none => .ok (Table.insert children last .virtual)
      | some .virtual => .ok children
      | some _ => .error [last])
    segments root

end Tree

end DocSchema
