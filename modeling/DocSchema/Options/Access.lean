import DocSchema.Options.Codec
import DocSchema.Error

/-!
# Setting and reading single options

`get` shows an option in its written form, and nothing where it is unset. `set` puts a value into
the written form of all options and reads the whole again. So it refuses a value that the option
cannot have, and then leaves the options as they are. Two options have rules of their own: the read
preference also goes by its short names, and turning off `safe` asks for writes without
acknowledgement. A null `safe` is kept as such, until another option is set.
-/

namespace DocSchema.Options

/-- The written form of an option, if it is set. -/
def get (o : Options) (name : String) : Option Json := Table.get? o.fields name

/-- The write concern that asks for no acknowledgement. -/
def unacknowledged : Json := .obj [("w", .int 0)]

def setRead (o : Options) : Json → Except SchemaError Options
  | .null => .ok { o with read := none }
  | .str name =>
    match ReadPreference.ofName? name with
    | some p => .ok { o with read := some p }
    | none => .error (.invalidOption "read" ("unknown read preference `" ++ name ++ "`"))
  | v => .error (.invalidOption "read" ("expected a string, got " ++ v.text))

def setSafe (o : Options) : Json → Options
  | .bool false => { o with safe := some unacknowledged }
  | v => { o with safe := some v }

/-- Set any other option, in the written form. -/
def setOther (o : Options) (name : String) (v : Json) : Except SchemaError Options :=
  match load (.obj (Table.insert o.fields name v)) with
  | .ok o => .ok o
  | .error e => .error (.invalidOption name e.message)

def set (o : Options) (name : String) (v : Json) : Except SchemaError Options :=
  match OptionKey.ofName? name with
  | some .read => o.setRead v
  | some .safe => .ok (o.setSafe v)
  | _ => o.setOther name v

end DocSchema.Options
