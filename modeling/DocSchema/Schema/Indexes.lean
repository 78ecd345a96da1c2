import DocSchema.Error
import DocSchema.Index.Duration
import DocSchema.Json.Printer
import DocSchema.Schema.Basic

/-!
# The indexes of a schema

The indexes of a schema are those of its fields, in order, and then those declared on it as a whole.
The indexes of a sub-schema stand in the place of the field that holds its documents, with the path
of this field before each of theirs.

`indexes` walks through sub-schemas and visits each path to one of them once; `plainIndexes` is the
same recursion without that check.
-/

namespace DocSchema

variable {δ : Type}

namespace FieldType

/-- The index of a field. The index of an array may be declared on its elements. -/
def index? (t : FieldType δ) : Option FieldIndex :=
  t.settings.index.or (t.element?.bind fun e => e.settings.index)

def indexEntries (front path : String) (t : FieldType δ) : List IndexEntry :=
  match t.index? with
  | some i => [(i.toEntry (front ++ path)).withBackground]
  | none => []

end FieldType

namespace Schema

mutual

/-- The indexes of a schema whose paths start with a text, and the starts visited so far. A start
that was visited before adds nothing. -/
def walk (front : String) (seen : List String) : Schema δ → List IndexEntry × List String
  | { fields := fields, ownIndexes := own, .. } =>
    if seen.contains front then ([], seen)
    else
      let (entries, seen) := walkFields front (seen ++ [front]) fields
      (entries ++ own.map (IndexEntry.placed front), seen)
termination_by structural s => s

def walkFields (front : String) (seen : List String) :
    List (String × FieldType δ) → List IndexEntry × List String
  | [] => ([], seen)
  | (path, t) :: rest =>
    let (entries, seen) := walkField front path seen t
    let (more, seen) := walkFields front seen rest
    (entries ++ more, seen)
termination_by structural fields => fields

def walkField (front path : String) (seen : List String) :
    FieldType δ → List IndexEntry × List String
  | { path := _, kind := .embedded s, settings := _ } => walk (front ++ path ++ ".") seen s
  | { path := _, kind := .documents s, settings := _ } => walk (front ++ path ++ ".") seen s
  | t => (t.indexEntries front path, seen)
termination_by structural t => t

end

def indexes (s : Schema δ) : List IndexEntry := (s.walk "" []).1

mutual

/-- The indexes of a schema whose paths start with a text, by plain recursion. -/
def plainIndexes (front : String) : Schema δ → List IndexEntry
  | { fields := fields, ownIndexes := own, .. } =>
    plainFieldIndexes front fields ++ own.map (IndexEntry.placed front)
termination_by structural s => s

def plainFieldIndexes (front : String) : List (String × FieldType δ) → List IndexEntry
  | [] => []
  | (path, t) :: rest => plainIndexesOf front path t ++ plainFieldIndexes front rest
termination_by structural fields => fields

def plainIndexesOf (front path : String) : FieldType δ → List IndexEntry
  | { path := _, kind := .embedded s, settings := _ } => plainIndexes (front ++ path ++ ".") s
  | { path := _, kind := .documents s, settings := _ } => plainIndexes (front ++ path ++ ".") s
  | t => t.indexEntries front path
termination_by structural t => t

end

/-- The indexes as they were when first asked for after the last declaration. -/
def indexedPaths (s : Schema δ) : Schema δ × List IndexEntry :=
  match s.knownIndexes with
  | some entries => (s, entries)
  | none => ({ s with knownIndexes := some s.indexes }, s.indexes)

/-! ## Declaring an index -/

def badIndex (reason : String) : SchemaError := .invalidOption "index" reason

def readDirections : List (String × Json) → Except SchemaError (List (String × Direction))
  | [] => .ok []
  | (path, v) :: rest =>
    match Direction.ofJson? v with
    | none => .error (badIndex ("invalid direction " ++ v.text ++ " for `" ++ path ++ "`"))
    | some d => (readDirections rest).map ((path, d) :: ·)

/-- Replace the duration after which documents expire by a number of seconds. -/
def readExpiry (options : Table Json) : Except SchemaError (Table Json) :=
  match Table.get? options "expires" with
  | none => .ok options
  | some v =>
    match Duration.expireAfterSeconds? v with
    | none => .error (badIndex ("invalid expires " ++ v.text))
    | some seconds =>
      .ok (Table.insert (Table.swapErase options "expires") "expireAfterSeconds" (.int seconds))

def readIndexOptions : Json → Except SchemaError (Table Json)
  | .obj options => readExpiry options
  | .null => .ok []
  | v => .error (badIndex ("options must be an object, got " ++ v.text))

def readIndex (fields options : Json) : Except SchemaError IndexEntry :=
  match fields with
  | .obj fields =>
    match readDirections fields with
    | .error e => .error e
    | .ok fields => (readIndexOptions options).map fun options => { fields, options }
  | _ => .error (badIndex "fields must be an object")

/-- Declare an index on the schema as a whole. -/
def addIndex (s : Schema δ) (fields options : Json) : Schema δ × Except SchemaError Unit :=
  match readIndex fields options with
  | .error e => (s, .error e)
  | .ok entry => ({ s with ownIndexes := s.ownIndexes ++ [entry], knownIndexes := none }, .ok ())

end Schema

end DocSchema
