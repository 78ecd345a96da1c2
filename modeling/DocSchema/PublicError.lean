import DocSchema.Json.Loading
import DocSchema.Registry.Error

/-!
# Public errors

One type for what can go wrong, meant to be sent and stored: a kind to decide on, the part of the
library that the error is from, and a message to show. It is written as an object of three fields
and read back from it, or from an array of the three values: `load_toJson`.
-/

namespace DocSchema

inductive SchemaErrorKind where
  | conflictingPath | invalidOption | invalidPath | reservedName | unknownType
  deriving DecidableEq, Repr

inductive RegistryErrorKind where
  | missingSchema | overwriteModel
  deriving DecidableEq, Repr

inductive ErrorKind where
  | schema (kind : SchemaErrorKind)
  | registry (kind : RegistryErrorKind)
  deriving DecidableEq, Repr

/-- The part of the library that an error is from. -/
inductive ErrorOrigin where
  | registry | schema
  deriving DecidableEq, Repr

/-- An error to be sent and stored. -/
structure PublicError where
  kind : ErrorKind
  origin : ErrorOrigin
  message : String
  deriving DecidableEq, Repr

/-! ## Kinds -/

namespace SchemaErrorKind

def names : Table SchemaErrorKind := [
  ("ConflictingPath", .conflictingPath), ("InvalidOption", .invalidOption),
  ("InvalidPath", .invalidPath), ("ReservedName", .reservedName), ("UnknownType", .unknownType)]

def name : SchemaErrorKind → String
  | .conflictingPath => "ConflictingPath"
  | .invalidOption => "InvalidOption"
  | .invalidPath => "InvalidPath"
  | .reservedName => "ReservedName"
  | .unknownType => "UnknownType"

end SchemaErrorKind

namespace RegistryErrorKind

def names : Table RegistryErrorKind := [
  ("MissingSchema", .missingSchema), ("OverwriteModel", .overwriteModel)]

def name : RegistryErrorKind → String
  | .missingSchema => "MissingSchema"
  | .overwriteModel => "OverwriteModel"

end RegistryErrorKind

namespace ErrorOrigin

def names : Table ErrorOrigin := [("Registry", .registry), ("Schema", .schema)]

def name : ErrorOrigin → String
  | .registry => "Registry"
  | .schema => "Schema"

end ErrorOrigin

/-- The kind of an error of a schema. A call that never returns has no error to be told apart from
others, so it does not matter which kind its mark has. -/
def SchemaError.kind : SchemaError → SchemaErrorKind
  | .conflictingPath .. => .conflictingPath
  | .invalidOption .. => .invalidOption
  | .invalidPath .. => .invalidPath
  | .reservedName _ => .reservedName
  | .unknownType .. | .endless _ => .unknownType

def SchemaError.toPublic (e : SchemaError) : PublicError :=
  { kind := .schema e.kind, origin := .schema, message := e.message }

/-- An error of the registry itself as a public one. -/
def RegistryErrorKind.withMessage (kind : RegistryErrorKind) (message : String) : PublicError :=
  { kind := .registry kind, origin := .registry, message }

/-- An error of a registry as a public one. That of a plugin is the error of the schema. -/
def RegistryError.toPublic (e : RegistryError) : PublicError :=
  match e with
  | .missingSchema _ => RegistryErrorKind.missingSchema.withMessage e.message
  | .overwriteModel _ => RegistryErrorKind.overwriteModel.withMessage e.message
  | .plugin _ source => source.toPublic

/-! ## Writing and reading -/

namespace ErrorKind

/-- The written form of a kind: its name under the part of the library it belongs to. -/
def toJson : ErrorKind → Json
  | .schema kind => .obj [("Schema", .str kind.name)]
  | .registry kind => .obj [("Registry", .str kind.name)]

/-- How the inner part of a kind is read, by the outer name. -/
def readers : Table (Json → Except LoadError ErrorKind) := [
  ("Schema", fun v => (v.loadChoice SchemaErrorKind.names).map .schema),
  ("Registry", fun v => (v.loadChoice RegistryErrorKind.names).map .registry)]

def load (v : Json) : Except LoadError ErrorKind := do
  let (name, value) ← v.loadTagged
  let reader ← Json.loadName readers name
  match value with
  | some v => reader v
  | none => .error (.wrongType .bareChoice "newtype variant")

end ErrorKind

namespace PublicError

def toJson (e : PublicError) : Json :=
  .obj [("kind", e.kind.toJson), ("origin", .str e.origin.name), ("message", .str e.message)]

/-- The fields of an error that were read so far. -/
structure Draft where
  kind : Option ErrorKind := none
  origin : Option ErrorOrigin := none
  message : Option String := none

/-- Read one field. Unknown ones are skipped. -/
def Draft.assign (p : Draft) (key : String) (v : Json) : Except LoadError Draft :=
  if key = "kind" then (ErrorKind.load v).map fun k => { p with kind := some k }
  else if key = "origin" then
    (v.loadChoice ErrorOrigin.names).map fun o => { p with origin := some o }
  else if key = "message" then v.loadString.map fun m => { p with message := some m }
  else .ok p

def Draft.assignAll (p : Draft) : Table Json → Except LoadError Draft
  | [] => .ok p
  | (key, v) :: rest =>
    match p.assign key v with
    | .ok p => p.assignAll rest
    | .error e => .error e

/-- The error whose fields were all read. -/
def Draft.complete (p : Draft) : Except LoadError PublicError :=
  match p.kind, p.origin, p.message with
  | some kind, some origin, some message => .ok { kind, origin, message }
  | none, _, _ => .error (.missingField "kind")
  | _, none, _ => .error (.missingField "origin")
  | _, _, none => .error (.missingField "message")

def tooShort (length : Nat) : LoadError := .wrongLength length "struct Error with 3 elements"

def loadItems : List Json → Except LoadError PublicError
  | [] => .error (tooShort 0)
  | k :: rest => do
    let kind ← ErrorKind.load k
    match rest with
    | [] => .error (tooShort 1)
    | o :: rest =>
      let origin ← o.loadChoice ErrorOrigin.names
      match rest with
      | [] => .error (tooShort 2)
      | m :: rest =>
        let message ← m.loadString
        if rest.isEmpty then .ok { kind, origin, message }
        else .error (.wrongLength (rest.length + 3) "fewer elements in array")

def load : Json → Except LoadError PublicError
  | .obj fields => do (← ({} : Draft).assignAll fields).complete
  | .arr items => loadItems items
  | v => v.refuse "struct Error"

theorem load_toJson (e : PublicError) : load e.toJson = .ok e := by
  obtain ⟨kind, origin, message⟩ := e
  rcases kind with kind | kind <;> cases kind <;> cases origin <;> rfl

end PublicError

end DocSchema
