import DocSchema.Index.Direction

/-!
# Indexes

`FieldIndex` is what a single field says about its index; `IndexEntry` is an index as a collection
of documents gets it: one or more fields in order, with options.
-/

namespace DocSchema

/-- The index of a single field. Without a direction it goes upwards. -/
structure FieldIndex where
  direction : Option Direction := none
  options : List (String × Json) := []

/-- An index over an ordered list of fields. -/
structure IndexEntry where
  fields : List (String × Direction)
  options : List (String × Json)

namespace IndexEntry

/-- The index that is built in the background unless its options say otherwise. -/
def withBackground (e : IndexEntry) : IndexEntry :=
  { e with options := Table.insertNew e.options "background" (.bool true) }

/-- The index of a sub-schema as seen from outside: every field gets a text in front. -/
def prefixed (front : String) (e : IndexEntry) : IndexEntry :=
  { e with fields := e.fields.map fun f => (front ++ f.1, f.2) }

/-- The index as the database gets it, for a schema whose paths start with a text. -/
def placed (front : String) (e : IndexEntry) : IndexEntry := (e.prefixed front).withBackground

def toJson (e : IndexEntry) : Json :=
  .obj [("fields", .obj (Table.mapValues Direction.toJson e.fields)), ("options", .obj e.options)]

end IndexEntry

def FieldIndex.toEntry (i : FieldIndex) (path : String) : IndexEntry where
  fields := [(path, i.direction.getD .ascending)]
  options := i.options

end DocSchema
