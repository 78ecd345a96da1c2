import DocSchema.Options.Access
import DocSchema.Schema.Compile
import DocSchema.Schema.Indexes
import DocSchema.Schema.Lookup

/-!
# Calls on a schema

Every call that changes a schema, as data. `run` makes a call and says whether it failed; a run of
calls goes on after a failure (`runAll`), while a plugin, which is a list of calls in one call, ends
at its first failure.
-/

namespace DocSchema

variable {δ : Type}

namespace Schema

def setOption (s : Schema δ) (key : String) (v : Json) : Schema δ × Except SchemaError Unit :=
  match s.options.set key v with
  | .ok o => ({ s with options := o }, .ok ())
  | .error e => (s, .error e)

/-- Add an entry to the queue that its event belongs to. -/
def addHook (s : Schema δ) (entry : HookEntry δ) : Schema δ :=
  if isQueryEvent entry.event then { s with queryHooks := s.queryHooks ++ [entry] }
  else { s with hooks := s.hooks ++ [entry] }

def pre (s : Schema δ) (event : String) (hook : PreHook δ) : Schema δ := s.addHook (.pre event hook)

def post (s : Schema δ) (event : String) (hook : PostHook δ) : Schema δ :=
  s.addHook (.on event hook)

/-- Add a hook that runs after an event and completes on its own. -/
def postWithNext (s : Schema δ) (event : String) (hook : CompletingHook δ) : Schema δ :=
  s.addHook (.post event hook)

/-- Queue the call of a method, whatever its name. -/
def queue (s : Schema δ) (method : String) (args : List Json) : Schema δ :=
  { s with hooks := s.hooks ++ [.queued method args] }

/-- Add a method, in the place of one with the same name. -/
def method (s : Schema δ) (name : String) (m : Method δ) : Schema δ :=
  { s with methods := Table.insert s.methods name m }

/-- Add a static, in the place of one with the same name. -/
def static (s : Schema δ) (name : String) (f : Static) : Schema δ :=
  { s with statics := Table.insert s.statics name f }

end Schema

inductive Call (δ : Type) where
  | add (d : Definition δ) (front : String)
  | declare (path : String) (d : Definition δ)
  | lookup (path : String)
  | classify (path : String)
  | requiredPaths (anew : Bool)
  | index (fields options : Json)
  | indexedPaths
  | virtual (path : String) (options : List (String × Json)) (getters : List Getter)
      (setters : List Setter)
  | queue (method : String) (args : List Json)
  | pre (event : String) (hook : PreHook δ)
  | post (event : String) (hook : PostHook δ)
  | postWithNext (event : String) (hook : CompletingHook δ)
  | method (name : String) (m : Method δ)
  | static (name : String) (f : Static)
  | set (key : String) (v : Json)
  | plugin (calls : List (Call δ))
  /-- Compile another schema on the side. -/
  | compile (o : Options) (d : Definition δ)
  /-- A call whose failure is not passed on. -/
  | attempt (c : Call δ)
  /-- A call that fails and does nothing else. -/
  | fail (e : SchemaError)

namespace Call

variable [Document δ]

/-- A state with an outcome, without the value of the outcome. -/
def forget {α : Type} (r : Schema δ × Except SchemaError α) : Schema δ × Except SchemaError Unit :=
  (r.1, r.2.map fun _ => ())

mutual

def run (s : Schema δ) : Call δ → Schema δ × Except SchemaError Unit
  | .add d front => s.add d front
  | .declare path d => forget (s.declare path d)
  | .lookup path => ((s.lookup path).1, .ok ())
  | .classify path => ((s.classify path).1, .ok ())
  | .requiredPaths anew => ((s.requiredPaths anew).1, .ok ())
  | .index fields options => s.addIndex fields options
  | .indexedPaths => (s.indexedPaths.1, .ok ())
  | .virtual path options getters setters =>
    forget (s.extendVirtual path options getters setters)
  | .queue name args => (s.queue name args, .ok ())
  | .pre event hook => (s.pre event hook, .ok ())
  | .post event hook => (s.post event hook, .ok ())
  | .postWithNext event hook => (s.postWithNext event hook, .ok ())
  | .method name m => (s.method name m, .ok ())
  | .static name f => (s.static name f, .ok ())
  | .set key v => s.setOption key v
  | .plugin calls => runUntilError s calls
  | .compile o d => (s, (Schema.compile o d).map fun _ => ())
  | .attempt c => ((run s c).1, .ok ())
  | .fail e => (s, .error e)

/-- Make calls in order, up to the first one that fails. -/
def runUntilError (s : Schema δ) : List (Call δ) → Schema δ × Except SchemaError Unit
  | [] => (s, .ok ())
  | c :: cs =>
    match run s c with
    | (s, .ok _) => runUntilError s cs
    | (s, .error e) => (s, .error e)

end

/-- Make calls in order, whether they fail or not. -/
def runAll (s : Schema δ) (calls : List (Call δ)) : Schema δ :=
  calls.foldl (fun s c => (run s c).1) s

end Call

end DocSchema
