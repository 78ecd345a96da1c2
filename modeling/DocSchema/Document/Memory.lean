import DocSchema.Document.Hook

/-!
# Documents in memory

A document that is kept in memory for trying schemas out. It has fields and flags, it says
beforehand with which error, if any, its validation and the saving of its inner documents fail, and
it keeps a journal of what happened to it.
-/

namespace DocSchema

structure MemoryDocument where
  fields : List (String × Json) := []
  isNew : Bool := false
  isSubdocument : Bool := false
  skipsValidation : Bool := false
  /-- What validation fails with. -/
  validationError : Option HookError := none
  /-- What saving the inner documents fails with. -/
  cascadeError : Option HookError := none
  journal : List String := []

namespace MemoryDocument

/-- Write a line into the journal. -/
def note (doc : MemoryDocument) (line : String) : MemoryDocument :=
  { doc with journal := doc.journal ++ [line] }

/-- Success, or failure with the given error. -/
def outcome : Option HookError → Except HookError Unit
  | none => .ok ()
  | some e => .error e

instance : Document MemoryDocument where
  isNew := isNew
  isSubdocument := isSubdocument
  validatesBeforeSave doc := !doc.skipsValidation
  get? doc field := Table.get? doc.fields field
  set doc field v := { doc with fields := Table.insert doc.fields field v }
  validate doc := (outcome doc.validationError, doc.note "validate")
  saveSubdocuments doc := (outcome doc.cascadeError, doc.note "save_subdocuments")

end MemoryDocument

end DocSchema
