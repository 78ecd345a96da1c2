import DocSchema.Document.Memory
import DocSchema.Json.Printer
import DocSchema.Virtual

/-!
# Scripts

Hooks, methods and the functions of virtuals, written as data. A script is a list of actions on a
document in memory; its value is that of its last action. Before an event a script may do anything;
after one it only reports.
-/

namespace DocSchema

inductive Action where
  /-- Write a line into the journal. -/
  | log (line : String)
  /-- Write the value of a field into the journal. -/
  | see (field : String)
  | get (field : String)
  | set (field : String) (v : Json)
  | copy (source target : String)
  /-- Give back the arguments of the call. -/
  | args
  | validate
  | saveSubdocuments
  | fail (e : HookError)
  /-- Complete a hook that runs after its event. -/
  | next (error : Option HookError)

abbrev Script := List Action

namespace Script

/-- The line that shows the value of a field. -/
def sight (doc : MemoryDocument) (field : String) : String :=
  field ++ "=" ++ match Document.get? doc field with
    | some v => v.text
    | none => "absent"

def runAction (args : List Json) (doc : MemoryDocument) :
    Action → Except HookError Json × MemoryDocument
  | .log line => (.ok .null, doc.note line)
  | .see field => (.ok .null, doc.note (sight doc field))
  | .get field => (.ok ((Document.get? doc field).getD .null), doc)
  | .set field v => (.ok .null, Document.set doc field v)
  | .copy source target =>
    let v := (Document.get? doc source).getD .null
    (.ok v, Document.set doc target v)
  | .args => (.ok (.arr args), doc)
  | .validate =>
    match Document.validate doc with
    | (.ok _, doc) => (.ok .null, doc)
    | (.error e, doc) => (.error e, doc)
  | .saveSubdocuments =>
    match Document.saveSubdocuments doc with
    | (.ok _, doc) => (.ok .null, doc)
    | (.error e, doc) => (.error e, doc)
  | .fail e => (.error e, doc)
  | .next _ => (.ok .null, doc)

/-- Run the actions after one that gave a value. -/
def runAfter (value : Json) (args : List Json) (doc : MemoryDocument) :
    Script → Except HookError Json × MemoryDocument
  | [] => (.ok value, doc)
  | a :: rest =>
    match runAction args doc a with
    | (.ok v, doc) => runAfter v args doc rest
    | (.error e, doc) => (.error e, doc)

def run (script : Script) (args : List Json) (doc : MemoryDocument) :
    Except HookError Json × MemoryDocument :=
  runAfter .null args doc script

/-- What a script reports about a document that it cannot change. -/
def report (script : Script) (doc : MemoryDocument) : List String :=
  script.filterMap fun
    | .log line => some line
    | .see field => some (sight doc field)
    | _ => none

/-- How a script completes a hook, if it does. -/
def completion (script : Script) : Option (Except HookError Unit) :=
  script.findSome? fun
    | .next error => some (MemoryDocument.outcome error)
    | _ => none

def toPre (script : Script) : PreHook MemoryDocument := fun _ doc =>
  match script.run [] doc with
  | (.ok _, doc) => (.ok (), doc)
  | (.error e, doc) => (.error e, doc)

def toPost (script : Script) : PostHook MemoryDocument := script.report

def toCompleting (script : Script) : CompletingHook MemoryDocument := fun doc =>
  (script.report doc, script.completion)

def toMethod (script : Script) : Method MemoryDocument := fun doc args => script.run args doc

/-- A script as a static, which has an empty document to itself. -/
def toStatic (script : Script) : Static := fun args => (script.run args {}).1

end Script

inductive VirtualStep where
  /-- Append to the text of the value. -/
  | suffix (s : String)
  /-- Put the value into a list, after a given one. -/
  | wrap (tag : Json)
  | const (v : Json)
  /-- The value of a field of the document. -/
  | field (name : String)
  /-- Store the value in a field of the document. -/
  | store (name : String)
  | same

namespace VirtualStep

/-- The text of a value: a text as it is, any other value as JSON. -/
def plainText : Json → String
  | .str s => s
  | v => v.text

def apply (step : VirtualStep) (value scope : Json) : Json :=
  match step with
  | .suffix s => .str (plainText value ++ s)
  | .wrap tag => .arr [tag, value]
  | .const v => v
  | .field name => (scope.field? name).getD .null
  | .store _ => value
  | .same => value

def toGetter (step : VirtualStep) : Getter := step.apply

def toSetter (step : VirtualStep) : Setter := fun value scope =>
  match step, scope with
  | .store name, .obj fields => (value, .obj (Table.insert fields name value))
  | step, scope => (step.apply value scope, scope)

end VirtualStep

end DocSchema
