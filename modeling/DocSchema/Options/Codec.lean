import DocSchema.Options.Basic
import DocSchema.Json.Loading

/-!
# Options and JSON

The written form of options is an object: the options with a place of their own in their order,
those of them that may be unset only where they are set, and then the other ones. `load` reads such
an object back. It goes through the keys in the order of the object, so of two bad values the first
one is reported; a missing key leaves the default.
-/

namespace DocSchema

def Timestamps.toJson : Timestamps → Json
  | .disabled => .bool false
  | .enabled created updated => .obj [(createdAt, .str created), (updatedAt, .str updated)]

/-- A field name of the timestamps option: a text, or the default where it is missing or null. -/
def Timestamps.fieldName? (fields : Table Json) (key : String) : Option String :=
  match Table.get? fields key with
  | none => some key
  | some .null => some key
  | some (.str s) => some s
  | some _ => none

/-- Read the timestamps option: a switch, or an object that names either field. -/
def Timestamps.load : Json → Except LoadError Timestamps
  | .bool false => .ok .disabled
  | .bool true => .ok (.enabled createdAt updatedAt)
  | .obj fields =>
    match fieldName? fields createdAt, fieldName? fields updatedAt with
    | some created, some updated => .ok (.enabled created updated)
    | _, _ => .error (.noForm "TimestampsRepr")
  | _ => .error (.noForm "TimestampsRepr")

namespace Options

/-- The written form of one option, where it is set. -/
def shown (o : Options) : OptionKey → Option Json
  | .strict => some (.bool o.strict)
  | .minimize => some (.bool o.minimize)
  | .validateBeforeSave => some (.bool o.validateBeforeSave)
  | .typeKey => some (.str o.typeKey)
  | .idField => some (.bool o.idField)
  | .idVirtual => some (.bool o.idVirtual)
  | .versionKey => some (.str o.versionKey)
  | .discriminatorKey => some (.str o.discriminatorKey)
  | .timestamps => some o.timestamps.toJson
  | .autoIndex => o.autoIndex.map .bool
  | .collection => o.collection.map .str
  | .read => o.read.map fun p => .str p.name
  | .safe => o.safe
  | .pluralization => o.pluralization.map .bool

/-- The written form of options, as a table. Among the other options, one with the name of an option
that has a place of its own stands in that place. -/
def fields (o : Options) : Table Json :=
  Table.insertAll (OptionKey.all.filterMap fun k => (o.shown k).map (k.name, ·)) o.extra

def toJson (o : Options) : Json := .obj o.fields

/-- Read the value of one option into its place. -/
def store (o : Options) (key : OptionKey) (v : Json) : Except LoadError Options :=
  match key with
  | .strict => v.loadBool.map fun b => { o with strict := b }
  | .minimize => v.loadBool.map fun b => { o with minimize := b }
  | .validateBeforeSave => v.loadBool.map fun b => { o with validateBeforeSave := b }
  | .typeKey => v.loadString.map fun s => { o with typeKey := s }
  | .idField => v.loadBool.map fun b => { o with idField := b }
  | .idVirtual => v.loadBool.map fun b => { o with idVirtual := b }
  | .versionKey => v.loadString.map fun s => { o with versionKey := s }
  | .discriminatorKey => v.loadString.map fun s => { o with discriminatorKey := s }
  | .timestamps => (Timestamps.load v).map fun t => { o with timestamps := t }
  | .autoIndex => (v.loadOptional Json.loadBool).map fun b => { o with autoIndex := b }
  | .collection => (v.loadOptional Json.loadString).map fun s => { o with collection := s }
  | .read =>
    (v.loadOptional (Json.loadChoice ReadPreference.names)).map fun p => { o with read := p }
  | .safe => (v.loadOptional .ok).map fun s => { o with safe := s }
  | .pluralization => (v.loadOptional Json.loadBool).map fun b => { o with pluralization := b }

/-- Read the value of an option by its name. A name without a place goes to the other options. -/
def assign (o : Options) (name : String) (v : Json) : Except LoadError Options :=
  match OptionKey.ofName? name with
  | some key => o.store key v
  | none => .ok { o with extra := Table.insert o.extra name v }

def assignAll (o : Options) : Table Json → Except LoadError Options
  | [] => .ok o
  | (name, v) :: rest =>
    match o.assign name v with
    | .ok o => o.assignAll rest
    | .error e => .error e

def load : Json → Except LoadError Options
  | .obj fields => ({} : Options).assignAll fields
  | v => v.refuse "struct SchemaOptions"

end Options

end DocSchema
