import DocSchema.Json.Basic

/-!
# Documents

What hooks and methods need of a document. A step on a document may fail, and what it had changed
before it failed stays changed: every step gives back the document beside its outcome.
-/

namespace DocSchema

inductive HookError where
  | validation (message : String)
  | cascade (message : String)
  | callback (message : String)
  deriving DecidableEq, Repr

def HookError.message : HookError → String
  | .validation m => "validation failed: " ++ m
  | .cascade m => "saving sub-documents failed: " ++ m
  | .callback m => m

class Document (δ : Type) where
  /-- Whether the document has never been saved. -/
  isNew : δ → Bool
  /-- Whether the document is part of another one. -/
  isSubdocument : δ → Bool := fun _ => false
  /-- Whether the document is to be validated before it is saved. -/
  validatesBeforeSave : δ → Bool := fun _ => true
  get? : δ → String → Option Json
  set : δ → String → Json → δ
  validate : δ → Except HookError Unit × δ
  saveSubdocuments : δ → Except HookError Unit × δ

end DocSchema
