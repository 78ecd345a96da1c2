import DocSchema.Json.Basic
import DocSchema.Text.Case

/-!
# Type names

The closed list of types that a definition can name: the scalar types, the mixed type, which holds
anything, and the array. A name is looked up with its first letter in upper case, so `"string"` and
`"String"` are the same type, and some types have a second name.
-/

namespace DocSchema

inductive Scalar where
  | boolean | buffer | date | decimal128 | number | objectId | string
  deriving DecidableEq, Repr

def Scalar.name : Scalar → String
  | .boolean => "Boolean"
  | .buffer => "Buffer"
  | .date => "Date"
  | .decimal128 => "Decimal128"
  | .number => "Number"
  | .objectId => "ObjectId"
  | .string => "String"

/-- The types a definition can name. -/
inductive TypeName where
  | scalar (s : Scalar)
  | mixed
  | array
  deriving DecidableEq, Repr

def capitalized (name : String) : String := String.ofList (Text.capitalize name.toList)

namespace TypeName

def name : TypeName → String
  | .scalar s => s.name
  | .mixed => "Mixed"
  | .array => "Array"

/-- Every name and the type it stands for. -/
def table : List (String × TypeName) := [
  ("Array", .array), ("Boolean", .scalar .boolean), ("Bool", .scalar .boolean),
  ("Buffer", .scalar .buffer), ("Date", .scalar .date), ("Decimal128", .scalar .decimal128),
  ("Decimal", .scalar .decimal128), ("Mixed", .mixed), ("Object", .mixed),
  ("Number", .scalar .number), ("ObjectId", .scalar .objectId), ("Oid", .scalar .objectId),
  ("String", .scalar .string)]

/-- The type of a name, whatever the case of its first letter. -/
def ofName? (name : String) : Option TypeName := table.lookup (capitalized name)

/-- The tagged form of a type name: the scalar types stand under a key of their own. -/
def toJson : TypeName → Json
  | .scalar s => .obj [("Primitive", .str s.name)]
  | t => .str t.name

def isDate (t : TypeName) : Bool := t = .scalar .date

end TypeName

end DocSchema
