import DocSchema.Table
import DocSchema.Decimal.Digits

/-!
# Events

What is reported to a log. An event has a level, a message and details under names; the details are
texts and stand in the order of their names.
-/

namespace DocSchema

inductive Level where
  | trace | debug | warn
  deriving DecidableEq, Repr

def Level.name : Level → String
  | .trace => "TRACE"
  | .debug => "DEBUG"
  | .warn => "WARN"

inductive Event where
  | pathRegistered (path kind : String)
  | schemaCompiled (paths groups virtuals : Nat)
  | modelRegistered (model collection fingerprint : String)
  | pluginApplied (model : String)
  | unknownPreference (name : String)
  deriving DecidableEq, Repr

namespace Event

def level : Event → Level
  | .pathRegistered .. => .trace
  | .unknownPreference _ => .warn
  | _ => .debug

def message : Event → String
  | .pathRegistered .. => "path registered"
  | .schemaCompiled .. => "schema compiled"
  | .modelRegistered .. => "model registered"
  | .pluginApplied _ => "plugin applied"
  | .unknownPreference _ => "unrecognised read preference"

/-- What an event says beside its message, by name. -/
def details : Event → Table String
  | .pathRegistered path kind => [("kind", kind), ("path", path)]
  | .schemaCompiled paths groups virtuals =>
    [("nested", natText groups), ("paths", natText paths), ("virtuals", natText virtuals)]
  | .modelRegistered model collection fingerprint =>
    [("collection", collection), ("fingerprint", fingerprint), ("model", model)]
  | .pluginApplied model => [("model", model)]
  | .unknownPreference name => [("preference", name)]

end Event

end DocSchema
