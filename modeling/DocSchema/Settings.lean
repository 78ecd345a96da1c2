import DocSchema.Index.Entry

/-!
# Settings of a field

What the record of a field says about it beside its type: whether it has to be set, its index, its
default, what it refers to, and whatever else was written there.
-/

namespace DocSchema

/-- That a field has to be set, with the message for the case that it is not. -/
structure Required where
  message : Option String := none
  deriving DecidableEq, Repr

def Required.toJson (r : Required) : Json :=
  match r.message with
  | none => .obj []
  | some m => .obj [("message", .str m)]

structure Settings where
  required : Option Required := none
  index : Option FieldIndex := none
  defaultValue : Option Json := none
  /-- The name of the model whose documents the field refers to. -/
  reference : Option String := none
  /-- Whether queries return the field. -/
  select : Option Bool := none
  /-- Whether the value is made up where none is given. -/
  auto : Bool := false
  extra : List (String × Json) := []

end DocSchema
