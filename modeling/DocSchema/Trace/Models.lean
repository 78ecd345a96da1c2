import DocSchema.Registry.Basic

/-!
# The events of a registry

A new model is reported, and so is every plugin that was applied to its schema, after what the
plugin itself reports.
-/

namespace DocSchema.Trace

variable {δ : Type}

def plugins (model : String) (s : Schema δ) : List (Plugin δ × Json) → List Event
  | [] => []
  | (p, options) :: rest =>
    p.report options s ++ match p.run options s with
      | (_, .error _) => []
      | (s, .ok _) => .pluginApplied model :: plugins model s rest

def modelRegistered (m : Model δ) : Event := .modelRegistered m.name m.collection m.fingerprint.hex

def model (r : Registry δ) (name : String) (schema : Option (Schema δ)) (wanted : Option String) :
    List Event :=
  match Table.get? r.models name, schema with
  | none, some s =>
    plugins name s r.plugins ++ match r.build name s wanted with
      | .error _ => []
      | .ok m => [modelRegistered m]
  | _, _ => []

end DocSchema.Trace
