import DocSchema.Schema.Basic

/-!
# Definitions as JSON

Any JSON value is a definition. In the other direction, a definition is shown as a value in which a
type is its name and a compiled schema is the tree of its names. The two meet on definitions that
come from JSON: `toJson_ofJson`.
-/

namespace DocSchema

variable {δ : Type}

/-- The mark of a virtual in the shown tree. -/
def virtualMark : Json := .obj [("$virtual", .bool true)]

namespace Definition

mutual

/-- The definition that a JSON value is. -/
def ofJson : Json → Definition δ
  | .arr items => .array (ofItems items)
  | .obj fields => .object (ofFields fields)
  | v => .literal v

def ofItems : List Json → List (Definition δ)
  | [] => []
  | v :: vs => ofJson v :: ofItems vs

def ofFields : List (String × Json) → List (String × Definition δ)
  | [] => []
  | (k, v) :: fs => (k, ofJson v) :: ofFields fs

end

mutual

def toJson : Definition δ → Json
  | .type t => .str t.name
  | .schema s => schemaJson s
  | .array items => .arr (itemsJson items)
  | .object fields => .obj (fieldsJson fields)
  | .literal v => v

def itemsJson : List (Definition δ) → List Json
  | [] => []
  | d :: ds => toJson d :: itemsJson ds

def fieldsJson : List (String × Definition δ) → List (String × Json)
  | [] => []
  | (k, d) :: fs => (k, toJson d) :: fieldsJson fs

def schemaJson : Schema δ → Json
  | { tree := tree, .. } => .obj (treeJson tree)

def treeJson : List (String × Tree (Definition δ)) → List (String × Json)
  | [] => []
  | (k, n) :: ns => (k, nodeJson n) :: treeJson ns

def nodeJson : Tree (Definition δ) → Json
  | .branch children => .obj (treeJson children)
  | .field d => toJson d
  | .virtual => virtualMark

end

mutual

theorem toJson_ofJson : ∀ v : Json, (ofJson v : Definition δ).toJson = v
  | .null => rfl
  | .bool _ => rfl
  | .num _ => rfl
  | .str _ => rfl
  | .arr items => by rw [ofJson, toJson, itemsJson_ofItems items]
  | .obj fields => by rw [ofJson, toJson, fieldsJson_ofFields fields]

theorem itemsJson_ofItems : ∀ vs : List Json, itemsJson (ofItems vs : List (Definition δ)) = vs
  | [] => rfl
  | v :: vs => by rw [ofItems, itemsJson, toJson_ofJson v, itemsJson_ofItems vs]

theorem fieldsJson_ofFields :
    ∀ fs : List (String × Json), fieldsJson (ofFields fs : List (String × Definition δ)) = fs
  | [] => rfl
  | (k, v) :: fs => by rw [ofFields, fieldsJson, toJson_ofJson v, fieldsJson_ofFields fs]

end

end Definition

def Schema.treeJson (s : Schema δ) : Json := .obj (Definition.treeJson s.tree)

end DocSchema
