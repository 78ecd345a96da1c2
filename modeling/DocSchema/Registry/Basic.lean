import DocSchema.Collection.Naming
import DocSchema.Registry.Error
import DocSchema.Registry.Plugin
import DocSchema.Schema.Fingerprint

/-!
# Registries

A registry binds schemas to model names. A name is bound once: asking for it again gives the same
model, and a schema with another definition is refused. On its first registration a schema goes
through the plugins of the registry, in order, and takes the registry's word on plural names unless
it has one of its own. The fingerprint of a model is that of the schema as it was given, so plugins
do not count when definitions are compared.
-/

namespace DocSchema

/-- A schema bound to a name and a collection. -/
structure Model (δ : Type) where
  name : String
  collection : String
  schema : Schema δ
  /-- The fingerprint of the schema before plugins ran. -/
  fingerprint : Fingerprint

/-- A table of models, with the plugins for new schemas. -/
structure Registry (δ : Type) where
  /-- The models by name, in the order of their registration. -/
  models : List (String × Model δ) := []
  /-- The plugins in the order of their declaration, each with its options. -/
  plugins : List (Plugin δ × Json) := []
  options : List (String × Json) := []

namespace Registry

variable {δ : Type}

/-- The name of the option that asks for plural names of collections. -/
def pluralization : String := "pluralization"

/-- A registry that asks for plural names. -/
def new : Registry δ := { options := [(pluralization, .bool true)] }

def set (r : Registry δ) (key : String) (v : Json) : Registry δ :=
  { r with options := Table.insert r.options key v }

def get (r : Registry δ) (key : String) : Option Json := Table.get? r.options key

/-- Whether plural names are asked for. They are, unless the option says no. -/
def wantsPlural (r : Registry δ) : Bool := ((r.get pluralization).bind Json.asBool?).getD true

/-- Declare a plugin for the schemas that are registered from then on. -/
def plugin (r : Registry δ) (p : Plugin δ) (options : Json) : Registry δ :=
  { r with plugins := r.plugins ++ [(p, options)] }

def names (r : Registry δ) : List String := Table.keys r.models

/-- The schema with the registry's word on plural names, unless it has one of its own. -/
def settlePlural (r : Registry δ) (s : Schema δ) : Except SchemaError (Schema δ) :=
  match s.options.get pluralization with
  | some _ => .ok s
  | none =>
    match s.setOption pluralization (.bool r.wantsPlural) with
    | (_, .error e) => .error e
    | (s, .ok _) => .ok s

/-- The schema that a model gets: the given one after all plugins. -/
def prepare (r : Registry δ) (s : Schema δ) : Except SchemaError (Schema δ) :=
  match Plugin.applyAll s r.plugins with
  | .error e => .error e
  | .ok s => r.settlePlural s

/-- The collection of a new model: the one asked for, the one its schema names, or the one named
after the model. -/
def collectionFor (name : String) (s : Schema δ) (wanted : Option String) : String :=
  (wanted.or s.options.collection).getD
    (Collection.nameFor name (s.options.pluralization.getD true))

def build (r : Registry δ) (name : String) (s : Schema δ) (wanted : Option String) :
    Except RegistryError (Model δ) :=
  match r.prepare s with
  | .error e => .error (.plugin name e)
  | .ok prepared =>
    .ok
      { name
        collection := collectionFor name prepared wanted
        schema := prepared
        fingerprint := s.fingerprint }

/-- A model that is there already, for a caller who may have a schema and a collection in mind. The
collection counts for this caller alone. -/
def fetch (m : Model δ) (schema : Option (Schema δ)) (wanted : Option String) :
    Except RegistryError (Model δ) :=
  if schema.all fun s => s.fingerprint = m.fingerprint then
    .ok { m with collection := wanted.getD m.collection }
  else .error (.overwriteModel m.name)

/-- The model of a name: the one that is there, or a new one with the given schema. -/
def model (r : Registry δ) (name : String) (schema : Option (Schema δ)) (wanted : Option String) :
    Registry δ × Except RegistryError (Model δ) :=
  match Table.get? r.models name with
  | some m => (r, fetch m schema wanted)
  | none =>
    match schema with
    | none => (r, .error (.missingSchema name))
    | some s =>
      match r.build name s wanted with
      | .error e => (r, .error e)
      | .ok m => ({ r with models := Table.insert r.models name m }, .ok m)

/-- A text for diagnostics: the plugins are counted. -/
def inspect (r : Registry δ) : String :=
  "Registry \x7b models: " ++ inspectList (r.names.map inspectText) ++
    ", plugins: " ++ natText r.plugins.length ++
    ", options: " ++ inspectTable (Table.mapValues Json.inspect r.options) ++ " \x7d"

end Registry

end DocSchema
