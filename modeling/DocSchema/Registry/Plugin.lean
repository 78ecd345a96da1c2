import DocSchema.Trace.Calls

/-!
# Plugins

A plugin is applied to a schema with some options: it changes the schema and may fail. What it
reports while it runs is given beside what it does. Most plugins are a list of calls, which they
make in order until one of them fails.
-/

namespace DocSchema

structure Plugin (δ : Type) where
  run : Json → Schema δ → Schema δ × Except SchemaError Unit
  report : Json → Schema δ → List Event := fun _ _ => []

namespace Plugin

variable {δ : Type}

/-- The plugin that makes the calls which its options ask for. -/
def ofCalls [Document δ] (calls : Json → List (Call δ)) : Plugin δ where
  run options s := (Call.plugin (calls options)).run s
  report options s := Trace.call s (.plugin (calls options))

/-- Apply plugins in order, each with its options, up to the first one that fails. -/
def applyAll (s : Schema δ) : List (Plugin δ × Json) → Except SchemaError (Schema δ)
  | [] => .ok s
  | (p, options) :: rest =>
    match p.run options s with
    | (_, .error e) => .error e
    | (s, .ok _) => applyAll s rest

end Plugin

end DocSchema
