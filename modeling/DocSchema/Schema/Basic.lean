import DocSchema.Document.Hook
import DocSchema.Options.Basic
import DocSchema.Settings
import DocSchema.Tree
import DocSchema.TypeName
import DocSchema.Virtual

/-!
# Definitions and schemas

A definition says what the fields of a document are; a schema is what it is compiled to. The two
types refer to each other, since a definition may hold a compiled schema and the tree of a schema
holds the definitions of its fields.

Everything is parameterised by the type `δ` of the documents that hooks and methods run on.
-/

namespace DocSchema

mutual

/-- What a field, or a group of fields, is said to be. An object is the record of one field if it
holds a type, and a group of fields otherwise. A text in the place of a type is the name of one. -/
inductive Definition (δ : Type) : Type where
  | type (t : TypeName)
  | schema (s : Schema δ)
  | array (items : List (Definition δ))
  | object (fields : List (String × Definition δ))
  | literal (v : Json)

inductive FieldKind (δ : Type) : Type where
  | scalar (s : Scalar)
  | mixed
  /-- Holds one document of a sub-schema. -/
  | embedded (s : Schema δ)
  /-- Holds an array of documents of a sub-schema. -/
  | documents (s : Schema δ)
  /-- Holds an array of values of one type. -/
  | array (element : FieldType δ)

structure FieldType (δ : Type) : Type where
  path : String
  kind : FieldKind δ
  settings : Settings

/-- What is found at a path that leads through positions in arrays. -/
inductive Located (δ : Type) : Type where
  | field (t : FieldType δ)
  | group
  | nowhere

structure Schema (δ : Type) : Type where
  options : Options
  /-- The fields by their paths, in the order of their declaration. -/
  fields : List (String × FieldType δ) := []
  groups : List String := []
  /-- The fields of embedded schemas, by their paths from here. -/
  embeddedFields : List (String × FieldType δ) := []
  /-- The groups of embedded schemas, by their paths from here. -/
  embeddedGroups : List String := []
  /-- What earlier look-ups of paths with positions found. -/
  located : List (String × Located δ) := []
  virtuals : List (String × Virtual) := []
  /-- How the declared names nest. -/
  tree : List (String × Tree (Definition δ)) := []
  hooks : List (HookEntry δ) := []
  queryHooks : List (HookEntry δ) := []
  /-- The indexes declared on the schema as a whole. -/
  ownIndexes : List IndexEntry := []
  methods : List (String × Method δ) := []
  statics : List (String × Static) := []
  /-- The required paths, once they were asked for. -/
  knownRequired : Option (List String) := none
  /-- The indexes, once they were asked for. -/
  knownIndexes : Option (List IndexEntry) := none

end

variable {δ : Type}

namespace FieldKind

def name : FieldKind δ → String
  | .scalar _ => "primitive"
  | .mixed => "mixed"
  | .embedded _ => "embedded-document"
  | .documents _ => "document-array"
  | .array _ => "primitive-array"

def scalar? : FieldKind δ → Option Scalar
  | .scalar s => some s
  | _ => none

end FieldKind

namespace FieldType

def instanceName (t : FieldType δ) : String :=
  match t.kind with
  | .scalar s => s.name
  | .mixed => "Mixed"
  | .embedded _ => "Embedded"
  | .documents _ => "DocumentArray"
  | .array _ => "Array"

def isRequired (t : FieldType δ) : Bool := t.settings.required.isSome

/-- Whether the field holds anything. -/
def isMixed (t : FieldType δ) : Bool :=
  match t.kind with
  | .mixed => true
  | _ => false

def schema? (t : FieldType δ) : Option (Schema δ) :=
  match t.kind with
  | .embedded s => some s
  | .documents s => some s
  | _ => none

def element? (t : FieldType δ) : Option (FieldType δ) :=
  match t.kind with
  | .array e => some e
  | _ => none

end FieldType

end DocSchema
