import DocSchema.Json.Inspect

/-!
# Virtual fields

A virtual field is computed: it is not stored, but read through a chain of getters and written
through a chain of setters. Both chains run from the function added last to the one added first. A
getter sees the document; a setter may also write to it.
-/

namespace DocSchema

/-- A function of the current value and the document. -/
abbrev Getter := Json → Json → Json

/-- A function of the current value and the document, which gives both back. -/
abbrev Setter := Json → Json → Json × Json

structure Virtual where
  path : String
  getters : List Getter := []
  setters : List Setter := []
  options : List (String × Json) := []

namespace Virtual

/-- Add functions at the end of both chains. -/
def extend (v : Virtual) (getters : List Getter) (setters : List Setter) : Virtual :=
  { v with getters := v.getters ++ getters, setters := v.setters ++ setters }

/-- The value that the getters make of a value, in the scope of a document. -/
def applyGetters (v : Virtual) (value scope : Json) : Json :=
  v.getters.foldr (fun g x => g x scope) value

/-- The value and the document that the setters make of a value and a document. -/
def applySetters (v : Virtual) (value scope : Json) : Json × Json :=
  v.setters.foldr (fun s (x, scope) => s x scope) (value, scope)

/-- A text for diagnostics: the functions are counted. -/
def inspect (v : Virtual) : String :=
  "VirtualType \x7b path: " ++ inspectText v.path ++
    ", getters: " ++ natText v.getters.length ++ ", setters: " ++ natText v.setters.length ++
    ", options: " ++ inspectTable (Table.mapValues Json.inspect v.options) ++ " \x7d"

end Virtual

end DocSchema
