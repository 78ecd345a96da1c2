import DocSchema.Error

/-!
# Errors of a registry

Why a registry does not give a model. The wording of every cause is in `message`.
-/

namespace DocSchema

inductive RegistryError where
  /-- There is no such model, and no schema was given for it. -/
  | missingSchema (model : String)
  /-- There is such a model, with another definition. -/
  | overwriteModel (model : String)
  /-- A plugin refused the schema of the model. -/
  | plugin (model : String) (source : SchemaError)
  deriving DecidableEq, Repr

namespace RegistryError

def message : RegistryError → String
  | .missingSchema model =>
    "Schema hasn't been registered for model `" ++ model ++ "`. Use Registry::model(name, schema)"
  | .overwriteModel model => "Cannot overwrite `" ++ model ++ "` model once compiled."
  | .plugin model source => "plugin failed on model `" ++ model ++ "`: " ++ source.message

end RegistryError

end DocSchema
