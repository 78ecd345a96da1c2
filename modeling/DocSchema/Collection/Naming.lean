import DocSchema.Collection.Plural

/-!
# Names of collections

The collection of a model is named after it: in lower case, and in the plural unless that is turned
off. The collections of the database itself keep their names.
-/

namespace DocSchema.Collection

/-- The start of the names of the database's own collections. -/
def systemStart : String := "system."

def nameFor (model : String) (pluralization : Bool) : String :=
  if systemStart.toList.isPrefixOf model.toList then model
  else
    let lowered := Text.lower model.toList
    String.ofList (if pluralization then plural lowered else lowered)

end DocSchema.Collection
