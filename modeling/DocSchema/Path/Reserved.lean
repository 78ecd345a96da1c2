/-!
# Reserved paths

Names that every document already gives a meaning. No path may equal one; a path below one may be
used.
-/

namespace DocSchema.Path

/-- The names taken by documents themselves. -/
def reserved : List String := [
  "_posts", "_pres", "collection", "db", "emit", "errors", "get", "init", "isModified", "isNew",
  "listeners", "modelName", "on", "once", "removeListener", "save", "schema", "set", "toObject",
  "validate"]

def isReserved (path : String) : Bool := reserved.contains path

end DocSchema.Path
