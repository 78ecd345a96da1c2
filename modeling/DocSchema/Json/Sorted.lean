import DocSchema.Json.Basic

/-!
# Values with sorted keys

`sorted` puts the keys of every object of a value, at every depth, into increasing order of their
code points, which is also the order of their UTF-8 bytes. Two values that differ by the order of
keys alone have the same sorted form.
-/

namespace DocSchema.Json

def entryLe (a b : String × Json) : Bool := !decide (b.1 < a.1)

mutual

/-- The value with the keys of all its objects in increasing order. -/
def sorted : Json → Json
  | .arr items => .arr (sortedItems items)
  | .obj fields => .obj ((sortedFields fields).mergeSort entryLe)
  | v => v

def sortedItems : List Json → List Json
  | [] => []
  | v :: vs => sorted v :: sortedItems vs

/-- The fields in the same order, each value in sorted form. -/
def sortedFields : List (String × Json) → List (String × Json)
  | [] => []
  | (k, v) :: fs => (k, sorted v) :: sortedFields fs

end

end DocSchema.Json
