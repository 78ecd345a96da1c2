import DocSchema.Json.Printer

/-!
# Inspecting values

A second text of a value, which names the kind of everything in it: `Number(1)`, `Bool(true)`,
`Array [Null]`, `Object` with quoted keys. Diagnostics show values this way.
-/

namespace DocSchema

/-- A text between quotes, with every character that has no glyph of its own named. -/
def inspectText (s : String) : String := String.ofList (Text.Quoted.inspected s.toList)

def commaSeparated (texts : List String) : String := String.intercalate ", " texts

def inspectList (texts : List String) : String := "[" ++ commaSeparated texts ++ "]"

def inspectTable (entries : Table String) : String :=
  "\x7b" ++ commaSeparated (entries.map fun e => inspectText e.1 ++ ": " ++ e.2) ++ "\x7d"

namespace Json

mutual

/-- The text that names the kind of a value and of everything in it. -/
def inspect : Json → String
  | .null => "Null"
  | .bool b => "Bool(" ++ (if b then "true" else "false") ++ ")"
  | .num n => "Number(" ++ String.ofList n.chars ++ ")"
  | .str s => "String(" ++ inspectText s ++ ")"
  | .arr items => "Array " ++ inspectList (inspectItems items)
  | .obj fields => "Object " ++ inspectTable (inspectFields fields)

def inspectItems : List Json → List String
  | [] => []
  | v :: vs => inspect v :: inspectItems vs

def inspectFields : List (String × Json) → Table String
  | [] => []
  | (k, v) :: fs => (k, inspect v) :: inspectFields fs

end

end Json

end DocSchema
