/-!
# Errors of a schema

What can be wrong with a declaration or an option; the wording of every cause is in `message`.

A call need not return at all: the type of a path may be resolved by resolving the same type again.
Such a call is told from the others by `endless` in the place of its error. Nobody is ever handed
this one.
-/

namespace DocSchema

/-- Why a schema refuses a declaration or an option. -/
inductive SchemaError where
  /-- The path, or a part of it, already stands for something else. -/
  | conflictingPath (path parent existing : String)
  /-- An option got a value that it cannot have. -/
  | invalidOption (key reason : String)
  /-- A path has no definition; in an array, its only element has none. -/
  | invalidPath (path : String) (inArray : Bool)
  /-- The path is taken by the documents themselves. -/
  | reservedName (path : String)
  /-- No type has the given name. -/
  | unknownType (name path : String)
  /-- No error, but the mark of a call that never returns: it is at the type of this path for
  ever. -/
  | endless (path : String)
  deriving DecidableEq, Repr

namespace SchemaError

def message : SchemaError → String
  | .conflictingPath path parent existing =>
    "Cannot set path `" ++ path ++ "`. Path `" ++ parent ++ "` is already set to " ++
      existing ++ "."
  | .invalidOption key reason => "invalid value for schema option `" ++ key ++ "`: " ++ reason
  | .invalidPath path inArray =>
    "Invalid value for schema " ++ (if inArray then "Array " else "") ++ "path `" ++ path ++ "`"
  | .reservedName path => "`" ++ path ++ "` may not be used as a schema pathname"
  | .unknownType name path =>
    "Undefined type `" ++ name ++ "` at `" ++ path ++ "`\n  Did you try nesting Schemas? " ++
      "You can only nest using sub-schema arrays or embedded sub-schemas."
  | .endless path => "The type of `" ++ path ++ "` is never resolved"

end SchemaError

end DocSchema
