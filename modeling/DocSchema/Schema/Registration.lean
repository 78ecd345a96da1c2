import DocSchema.Error
import DocSchema.Path.Reserved
import DocSchema.Path.Segments
import DocSchema.Schema.Entries

/-!
# Declaring names on a schema

A call on a schema gives back the schema it leaves behind and its answer, also where it fails: what
was declared before the failure stays declared.

A field is declared in two steps. `place` checks that the path is free and binds it in the tree;
`adopt` stores the compiled field. In between its type is resolved, and a field whose type cannot be
resolved stays bound in the tree alone.
-/

namespace DocSchema.Schema

variable {δ : Type}

/-- An entry whose type, or the error in its place, is known. -/
abbrev TypedEntry (δ : Type) := Entry δ (Except SchemaError (FieldType δ))

/-- Add a name to an ordered list of names, unless it is there already. -/
def addName (names : List String) (name : String) : List String :=
  if names.contains name then names else names ++ [name]

/-- The error of a path that cannot be declared because of what stands at another one, which may be
the path itself. -/
def conflict (s : Schema δ) (path parent : String) : SchemaError :=
  let existing := match Table.get? s.fields parent with
    | some t => t.instanceName
    | none => if Table.contains s.virtuals parent then "a virtual" else "a nested path"
  .conflictingPath path parent existing

/-! ## Fields -/

/-- Whether a path is bound to something that a field cannot replace. -/
def isTaken (s : Schema δ) (path : String) : Bool :=
  s.groups.contains path || Table.contains s.virtuals path ||
    match Tree.get? (Path.segments path) s.tree with
    | some (.branch _) => true
    | some .virtual => true
    | _ => false

/-- Bind a path to a definition in the tree, if the path is free for a field. -/
def place (s : Schema δ) (path : String) (d : Definition δ) : Except SchemaError (Schema δ) :=
  if Path.isReserved path then .error (.reservedName path)
  else if s.isTaken path then .error (s.conflict path path)
  else
    match Tree.insertField (Path.segments path) d s.tree with
    | .error blocking => .error (s.conflict path (Path.join blocking))
    | .ok tree => .ok { s with tree := tree }

/-- Make the fields and groups of an embedded schema known by their paths from here, in the place of
those that were known below the same path. -/
def embed (s : Schema δ) (path : String) (child : Schema δ) : Schema δ :=
  let fields := s.embeddedFields.filter fun e => !Path.isBelow path e.1
  let groups := s.embeddedGroups.filter fun g => !Path.isBelow path g
  { s with
    embeddedFields := Table.insertAll fields
      ((child.fields ++ child.embeddedFields).map fun e => (Path.below path e.1, e.2))
    embeddedGroups := ((child.groups ++ child.embeddedGroups).map (Path.below path)).foldl
      addName groups }

/-- Store a compiled field. What was found out about other paths and about indexes no longer
counts. -/
def adopt (s : Schema δ) (path : String) (t : FieldType δ) : Schema δ :=
  let s := match t.kind with
    | .embedded child => s.embed path child
    | _ => s
  { s with
    located := []
    knownIndexes := none
    fields := Table.insert s.fields path t }

/-- Declare a field whose type, or the error in its place, is given. -/
def declareAs (s : Schema δ) (path : String) (d : Definition δ)
    (type : Except SchemaError (FieldType δ)) : Schema δ × Except SchemaError (FieldType δ) :=
  match s.place path d with
  | .error e => (s, .error e)
  | .ok s =>
    match type with
    | .error e => (s, .error e)
    | .ok t => (s.adopt path t, .ok t)

/-! ## Entries -/

def register (s : Schema δ) : TypedEntry δ → Schema δ × Except SchemaError Unit
  | .missing path => (s, .error (.invalidPath path false))
  | .missingItem path => (s, .error (.invalidPath path true))
  | .group path =>
    match Table.get? s.fields path with
    | some t => (s, .error (.conflictingPath path path t.instanceName))
    | none => ({ s with groups := addName s.groups path }, .ok ())
  | .field path d type =>
    match s.declareAs path d type with
    | (s, .ok _) => (s, .ok ())
    | (s, .error e) => (s, .error e)

/-- Declare entries in order, up to the first one that fails. -/
def registerAll (s : Schema δ) : List (TypedEntry δ) → Schema δ × Except SchemaError Unit
  | [] => (s, .ok ())
  | e :: es =>
    match s.register e with
    | (s, .ok _) => s.registerAll es
    | (s, .error err) => (s, .error err)

/-! ## Virtuals -/

/-- The virtual at a path, declared on its first use. The options count only then. -/
def virtual (s : Schema δ) (path : String) (options : Table Json) :
    Schema δ × Except SchemaError Virtual :=
  match Table.get? s.virtuals path with
  | some v => (s, .ok v)
  | none =>
    match Tree.insertVirtual (Path.segments path) s.tree with
    | .error blocking => (s, .error (s.conflict path (Path.join blocking)))
    | .ok tree =>
      let v : Virtual := { path, options }
      ({ s with tree := tree, virtuals := Table.insert s.virtuals path v }, .ok v)

/-- Add getters and setters to a virtual, which is declared on its first use. -/
def extendVirtual (s : Schema δ) (path : String) (options : Table Json) (getters : List Getter)
    (setters : List Setter) : Schema δ × Except SchemaError Virtual :=
  match s.virtual path options with
  | (s, .error e) => (s, .error e)
  | (s, .ok v) =>
    let v := v.extend getters setters
    ({ s with virtuals := Table.insert s.virtuals path v }, .ok v)

end DocSchema.Schema
