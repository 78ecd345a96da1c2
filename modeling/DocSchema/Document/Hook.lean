import DocSchema.Document.Basic

/-!
# Hooks and methods

A queue of hooks is a list of entries in the order of their declaration. A hook that runs before its
event may change the document and may fail; it is told the time of the run. A hook that runs after
its event only looks at the document and reports; one kind of these completes on its own, now or not
at all. Methods run on a document, statics on nothing.

The hooks of queries are kept apart from those of documents.
-/

namespace DocSchema

variable {δ : Type}

/-- Runs before an event, at a given time. -/
abbrev PreHook (δ : Type) := Json → δ → Except HookError Unit × δ

/-- Runs after an event and reports. -/
abbrev PostHook (δ : Type) := δ → List String

/-- Runs after an event, reports, and has completed or not. -/
abbrev CompletingHook (δ : Type) := δ → List String × Option (Except HookError Unit)

abbrev Method (δ : Type) := δ → List Json → Except HookError Json × δ

/-- Runs on some arguments alone. -/
abbrev Static := List Json → Except HookError Json

inductive HookEntry (δ : Type) where
  /-- A call of a method, to be made up for on every document. -/
  | queued (method : String) (args : List Json)
  | pre (event : String) (hook : PreHook δ)
  | on (event : String) (hook : PostHook δ)
  | post (event : String) (hook : CompletingHook δ)

namespace HookEntry

def kind : HookEntry δ → String
  | .queued .. => "queue"
  | .pre .. => "pre"
  | .on .. => "on"
  | .post .. => "post"

/-- The event of a hook, or the name of the method. -/
def event : HookEntry δ → String
  | .queued method _ => method
  | .pre event _ => event
  | .on event _ => event
  | .post event _ => event

def isPost : HookEntry δ → Bool
  | .on .. => true
  | .post .. => true
  | _ => false

end HookEntry

abbrev HookQueue (δ : Type) := List (HookEntry δ)

namespace HookQueue

def preHooks (q : HookQueue δ) (event : String) : List (PreHook δ) :=
  q.filterMap fun
    | .pre e hook => if e = event then some hook else none
    | _ => none

def postHooks (q : HookQueue δ) (event : String) : List (HookEntry δ) :=
  q.filter fun e => e.isPost && e.event = event

end HookQueue

def queryEvents : List String :=
  ["count", "find", "findOne", "findOneAndRemove", "findOneAndUpdate", "update"]

def isQueryEvent (event : String) : Bool := queryEvents.contains event

/-! ## Built-in hooks -/

namespace PreHook

variable [Document δ]

/-- Validate a document that is saved, unless it is part of another one or asks not to be. -/
def validateFirst : PreHook δ := fun _ doc =>
  if Document.isSubdocument doc || !Document.validatesBeforeSave doc then (.ok (), doc)
  else Document.validate doc

def saveInner : PreHook δ := fun _ doc => Document.saveSubdocuments doc

def isUnset (doc : δ) (field : String) : Bool :=
  match Document.get? doc field with
  | none => true
  | some v => v.isNull

/-- Keep the times of creation and of the last update. The first is set once; the second is the time
of the run, and for a new document the time of its creation. -/
def stamp (created updated : String) : PreHook δ := fun now doc =>
  let doc := if isUnset doc created then Document.set doc created now else doc
  let time :=
    if Document.isNew doc then (Document.get? doc created).getD now else now
  (.ok (), Document.set doc updated time)

/-- The hooks at the head of the queue of every schema. -/
def builtIn : HookQueue δ := [.pre "save" validateFirst, .pre "save" saveInner]

end PreHook

end DocSchema
