import DocSchema.Document.Memory

/-!
# Replaying an event

An event on a document in memory: the hooks before it run in order until one fails; if none does,
the event is noted in the journal and the hooks after it run in order.
-/

namespace DocSchema

inductive PostOutcome where
  | listened
  | completed (outcome : Except HookError Unit)
  | pending

/-- What an event left behind. -/
structure Replay where
  /-- How many hooks were run before the event, a failing one included. -/
  started : Nat
  failed : Option HookError
  outcomes : List PostOutcome
  document : MemoryDocument

namespace Replay

/-- Run hooks before an event, up to the first one that fails. -/
def runPre (now : Json) (started : Nat) (doc : MemoryDocument) :
    List (PreHook MemoryDocument) → Nat × Option HookError × MemoryDocument
  | [] => (started, none, doc)
  | hook :: rest =>
    match hook now doc with
    | (.ok _, doc) => runPre now (started + 1) doc rest
    | (.error e, doc) => (started + 1, some e, doc)

def runPost (doc : MemoryDocument) : HookEntry MemoryDocument → List String × PostOutcome
  | .on _ hook => (hook doc, .listened)
  | .post _ hook =>
    let (lines, completion) := hook doc
    (lines, match completion with
      | some outcome => .completed outcome
      | none => .pending)
  | _ => ([], .listened)

/-- Replay an event with the hooks of a queue, at a given time, with an empty journal. -/
def run (queue : HookQueue MemoryDocument) (event : String) (now : Json) (doc : MemoryDocument) :
    Replay :=
  let (started, failed, doc) := runPre now 0 { doc with journal := [] } (queue.preHooks event)
  match failed with
  | some e => { started, failed := some e, outcomes := [], document := doc }
  | none =>
    let doc := doc.note ("<" ++ event ++ ">")
    let runs := (queue.postHooks event).map (runPost doc)
    { started
      failed := none
      outcomes := runs.map Prod.snd
      document := { doc with journal := doc.journal ++ runs.flatMap Prod.fst } }

end Replay

end DocSchema
