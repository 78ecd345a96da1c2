import DocSchema.Json.Inspect

/-!
# Loading records from JSON

What can be wrong when a value is read as a record, a choice or a plain value, and the readers that
several records share. An error names what was found and what was wanted; its wording is in
`LoadError.message`.
-/

namespace DocSchema

/-- What was found in a place where something else was wanted. -/
inductive Found where
  | null
  | boolean (b : Bool)
  | integer (n : Int)
  | double (x : Double)
  | string (s : String)
  | sequence
  | map
  /-- A choice without the value that belongs to it. -/
  | bareChoice
  deriving DecidableEq, Repr

namespace Found

/-- What a value looks like from outside. -/
def ofJson : Json → Found
  | .null => .null
  | .bool b => .boolean b
  | .num (.int n) => .integer n
  | .num (.double x) => .double x
  | .str s => .string s
  | .arr _ => .sequence
  | .obj _ => .map

def message : Found → String
  | .null => "null"
  | .boolean b => "boolean `" ++ (if b then "true" else "false") ++ "`"
  | .integer n => "integer `" ++ String.ofList (intChars n) ++ "`"
  | .double x => "floating point `" ++ String.ofList x.chars ++ "`"
  | .string s => "string " ++ inspectText s
  | .sequence => "sequence"
  | .map => "map"
  | .bareChoice => "unit variant"

end Found

inductive LoadError where
  | wrongType (found : Found) (wanted : String)
  | notOneKey
  | unknownChoice (name : String) (known : List String)
  | missingField (name : String)
  | wrongLength (length : Nat) (wanted : String)
  | noForm (name : String)
  deriving DecidableEq, Repr

namespace LoadError

/-- The wording of the names that would have been known. -/
def knownNames : List String → String
  | [] => "there are no variants"
  | [a] => "expected `" ++ a ++ "`"
  | [a, b] => "expected `" ++ a ++ "` or `" ++ b ++ "`"
  | names => "expected one of " ++ commaSeparated (names.map fun n => "`" ++ n ++ "`")

def message : LoadError → String
  | .wrongType found wanted => "invalid type: " ++ found.message ++ ", expected " ++ wanted
  | .notOneKey => "invalid value: map, expected map with a single key"
  | .unknownChoice name known => "unknown variant `" ++ name ++ "`, " ++ knownNames known
  | .missingField name => "missing field `" ++ name ++ "`"
  | .wrongLength length wanted => "invalid length " ++ natText length ++ ", expected " ++ wanted
  | .noForm name => "data did not match any variant of untagged enum " ++ name

end LoadError

namespace Json

/-- The error of a value in the wrong place. -/
def refuse {α : Type} (v : Json) (wanted : String) : Except LoadError α :=
  .error (.wrongType (Found.ofJson v) wanted)

def loadBool : Json → Except LoadError Bool
  | .bool b => .ok b
  | v => v.refuse "a boolean"

def loadString : Json → Except LoadError String
  | .str s => .ok s
  | v => v.refuse "a string"

/-- Read a value that may be unset, which null stands for. -/
def loadOptional {α : Type} (load : Json → Except LoadError α) : Json → Except LoadError (Option α)
  | .null => .ok none
  | v => (load v).map some

/-- Read the name of a choice and the value that belongs to it: a text has no value, an object with
one key has one. -/
def loadTagged : Json → Except LoadError (String × Option Json)
  | .str name => .ok (name, none)
  | .obj [(name, v)] => .ok (name, some v)
  | .obj _ => .error .notOneKey
  | v => v.refuse "string or map"

def loadName {α : Type} (known : Table α) (name : String) : Except LoadError α :=
  match Table.get? known name with
  | some a => .ok a
  | none => .error (.unknownChoice name (Table.keys known))

/-- Read one of several names. The name may also be a key, with null as its value. -/
def loadChoice {α : Type} (known : Table α) (v : Json) : Except LoadError α := do
  let (name, value) ← loadTagged v
  let a ← loadName known name
  match value with
  | none => .ok a
  | some .null => .ok a
  | some v => v.refuse "unit"

end Json

end DocSchema
