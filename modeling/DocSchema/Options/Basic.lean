import DocSchema.Json.Basic

/-!
# Options of a schema

The configuration of a schema: switches, the keys with a special meaning, and values that are handed
on to the database. Every option has a key; options that nothing here knows are kept as they are.
-/

namespace DocSchema

/-- Which members of a replica set may answer a query. -/
inductive ReadPreference where
  | primary | primaryPreferred | secondary | secondaryPreferred | nearest
  deriving DecidableEq, Repr

namespace ReadPreference

def name : ReadPreference → String
  | .primary => "primary"
  | .primaryPreferred => "primaryPreferred"
  | .secondary => "secondary"
  | .secondaryPreferred => "secondaryPreferred"
  | .nearest => "nearest"

def names : Table ReadPreference :=
  [.primary, .primaryPreferred, .secondary, .secondaryPreferred, .nearest].map fun p => (p.name, p)

def aliases : Table ReadPreference := [
  ("p", .primary), ("pp", .primaryPreferred), ("s", .secondary), ("sp", .secondaryPreferred),
  ("n", .nearest)]

def ofName? (name : String) : Option ReadPreference :=
  (Table.get? names name).or (Table.get? aliases name)

end ReadPreference

/-- Whether a schema keeps the times at which a document was created and last updated, and in which
fields. -/
inductive Timestamps where
  | disabled
  | enabled (created updated : String)
  deriving DecidableEq, Repr

namespace Timestamps

/-- The field for the time of creation, where none is named. -/
def createdAt : String := "createdAt"

def updatedAt : String := "updatedAt"

/-- The two fields, creation first. -/
def fields? : Timestamps → Option (String × String)
  | .disabled => none
  | .enabled created updated => some (created, updated)

end Timestamps

structure Options where
  strict : Bool := true
  minimize : Bool := true
  validateBeforeSave : Bool := true
  /-- The key that holds the type in the record of a field. -/
  typeKey : String := "type"
  idField : Bool := true
  /-- Whether a virtual is added that shows the identifier as a text. -/
  idVirtual : Bool := true
  versionKey : String := "__v"
  discriminatorKey : String := "__t"
  timestamps : Timestamps := .disabled
  autoIndex : Option Bool := none
  collection : Option String := none
  read : Option ReadPreference := none
  safe : Option Json := none
  pluralization : Option Bool := none
  /-- Options without a place of their own, in the order in which they were first given. -/
  extra : List (String × Json) := []

/-- The options of a sub-schema that is written inline: two are inherited. -/
def Options.forChild (o : Options) : Options :=
  { minimize := o.minimize, typeKey := o.typeKey }

/-- The options that have a place of their own, in the order in which they are shown. -/
inductive OptionKey where
  | strict | minimize | validateBeforeSave | typeKey | idField | idVirtual | versionKey
  | discriminatorKey | timestamps | autoIndex | collection | read | safe | pluralization
  deriving DecidableEq, Repr

namespace OptionKey

def all : List OptionKey := [
  .strict, .minimize, .validateBeforeSave, .typeKey, .idField, .idVirtual, .versionKey,
  .discriminatorKey, .timestamps, .autoIndex, .collection, .read, .safe, .pluralization]

def name : OptionKey → String
  | .strict => "strict"
  | .minimize => "minimize"
  | .validateBeforeSave => "validateBeforeSave"
  | .typeKey => "typeKey"
  | .idField => "_id"
  | .idVirtual => "id"
  | .versionKey => "versionKey"
  | .discriminatorKey => "discriminatorKey"
  | .timestamps => "timestamps"
  | .autoIndex => "autoIndex"
  | .collection => "collection"
  | .read => "read"
  | .safe => "safe"
  | .pluralization => "pluralization"

def ofName? (name : String) : Option OptionKey := all.find? (·.name = name)

end OptionKey

end DocSchema
