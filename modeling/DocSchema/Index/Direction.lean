import DocSchema.Json.Basic

/-!
# Directions of an index

A field is indexed upwards, downwards or by a special kind of index. A direction is written `1`,
`-1` or the name of the kind, and `ofJson?` reads exactly these: `ofJson?_toJson`.
-/

namespace DocSchema

inductive IndexKind where
  | geo2d | geo2dSphere | hashed | text
  deriving DecidableEq, Repr

namespace IndexKind

def name : IndexKind → String
  | .geo2d => "2d"
  | .geo2dSphere => "2dsphere"
  | .hashed => "hashed"
  | .text => "text"

def ofName? (name : String) : Option IndexKind :=
  if name = "2d" then some .geo2d
  else if name = "2dsphere" then some .geo2dSphere
  else if name = "hashed" then some .hashed
  else if name = "text" then some .text
  else none

end IndexKind

/-- How one field is indexed. -/
inductive Direction where
  | ascending
  | descending
  | special (kind : IndexKind)
  deriving DecidableEq, Repr

namespace Direction

/-- The direction that a value stands for. A double is no direction, even where it equals one. -/
def ofJson? : Json → Option Direction
  | .num (.int n) => if n = 1 then some .ascending else if n = -1 then some .descending else none
  | .str name => (IndexKind.ofName? name).map .special
  | _ => none

def toJson : Direction → Json
  | .ascending => .int 1
  | .descending => .int (-1)
  | .special kind => .str kind.name

theorem ofJson?_toJson (d : Direction) : ofJson? d.toJson = some d := by
  cases d with
  | ascending => rfl
  | descending => rfl
  | special kind => cases kind <;> rfl

end Direction

end DocSchema
