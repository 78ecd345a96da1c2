import DocSchema.Schema.Call
import DocSchema.Trace.Event

/-!
# The events of calls on a schema

Every field that is declared and every schema that is compiled is reported. What is reported never
changes what is done: these functions stand beside the ones they follow, and give the events that go
with the same arguments.
-/

namespace DocSchema

namespace Trace

variable {δ : Type}

/-- What is known of the type of a field, with the events of finding it out. -/
abbrev Traced (δ : Type) := Except SchemaError (FieldType δ) × List Event

def untraced : Entry δ (Traced δ) → Schema.TypedEntry δ
  | .missing path => .missing path
  | .missingItem path => .missingItem path
  | .group path => .group path
  | .field path d type => .field path d type.1

def registered (path : String) : Except SchemaError (FieldType δ) → List Event
  | .ok t => [.pathRegistered path t.kind.name]
  | .error _ => []

/-- The events of one entry. The type of a field is only resolved if its path is free. -/
def register (s : Schema δ) : Entry δ (Traced δ) → List Event
  | .field path d (type, events) =>
    match s.place path d with
    | .ok _ => events ++ registered path type
    | .error _ => []
  | _ => []

/-- The events of entries in order, up to the first one that fails. -/
def registerAll (s : Schema δ) : List (Entry δ (Traced δ)) → List Event
  | [] => []
  | e :: es =>
    register s e ++ match s.register (untraced e) with
      | (s, .ok _) => registerAll s es
      | (_, .error _) => []

def compiled (s : Schema δ) : Event :=
  .schemaCompiled s.fields.length s.groups.length s.virtuals.length

/-- An entry whose type took no further event to find out. -/
def silent : Schema.TypedEntry δ → Entry δ (Traced δ)
  | .missing path => .missing path
  | .missingItem path => .missingItem path
  | .group path => .group path
  | .field path d type => .field path d (type, [])

def addIdField (s : Schema δ) : List Event :=
  let d := Schema.idDefinition s.options.typeKey
  if s.options.idField && !Table.contains s.fields "_id" && !s.groups.contains "_id" then
    register s (silent (.field "_id" d (d.plainTypeAt s.options.typeKey "_id")))
  else []

def addStampFields (s : Schema δ) : List Event :=
  match s.options.timestamps.fields? with
  | none => []
  | some (created, updated) =>
    registerAll s
      ((s.stampPaths created updated).map fun p => silent (Schema.dateEntry s.options.typeKey p))

/-- The events of building a schema from resolved entries. -/
def assemble [Document δ] (o : Options) (entries : List (Entry δ (Traced δ))) : List Event :=
  registerAll (Schema.empty o) entries ++
    match (Schema.empty o).registerAll (entries.map untraced) with
    | (_, .error _) => []
    | (s, .ok _) =>
      addIdField s ++
        match s.addIdField with
        | (_, .error _) => []
        | (s, .ok _) =>
          match s.addIdVirtual with
          | (_, .error _) => []
          | (s, .ok _) =>
            addStampFields s ++
              match s.addStampFields with
              | (_, .error _) => []
              | (s, .ok _) => [compiled s]

open Definition in
/-- The events of resolving a type: those of the sub-schemas that are written inline. -/
def typeAt [Document δ] (o : Options) (path : String) (d : Definition δ) : List Event :=
  match h : shape o.typeKey path (d.record o.typeKey) with
  | .ok (.arrayOf (.object fields)) =>
    if isInline o.typeKey (.object fields : Definition δ) then
      assemble o.forChild <| (entries o.typeKey "" fields).attach.map fun
        | ⟨.missing p, _⟩ => .missing p
        | ⟨.missingItem p, _⟩ => .missingItem p
        | ⟨.group p, _⟩ => .group p
        | ⟨.field p x _, hx⟩ =>
          have : sizeOf x < sizeOf d := by
            have h1 := sizeOf_lt_of_shape_record h (isCircular_object o.typeKey fields)
            have h2 := sizeOf_lt_of_mem_entries fields hx
            simp only [object.sizeOf_spec] at h1
            omega
          .field p x (x.typeAt o.forChild p, typeAt o.forChild p x)
    else
      have := sizeOf_lt_of_shape_record h (isCircular_object o.typeKey fields)
      typeAt o path (.object fields)
  | .ok (.arrayOf x) =>
    if circular : x.isCircular o.typeKey then []
    else
      have := sizeOf_lt_of_shape_record h (by simpa using circular)
      typeAt o path x
  | _ => []
termination_by sizeOf d
decreasing_by all_goals assumption

variable [Document δ]

/-- The entries of a group of fields with their types and the events of finding them out. -/
def entries (o : Options) (front : String) (fields : List (String × Definition δ)) :
    List (Entry δ (Traced δ)) :=
  (Definition.entries o.typeKey front fields).map
    (Entry.withType fun p x => (x.typeAt o p, typeAt o p x))

def compile (o : Options) : Definition δ → List Event
  | .object fields => assemble o (entries o "" fields)
  | .literal .null => assemble (δ := δ) o []
  | _ => []

def declare (s : Schema δ) (path : String) (d : Definition δ) : List Event :=
  register s (.field path d (d.typeAt s.options path, typeAt s.options path d))

def add (s : Schema δ) (d : Definition δ) (front : String) : List Event :=
  match d with
  | .object fields => registerAll s (entries s.options front fields)
  | _ => []

def set (key : String) (v : Json) : List Event :=
  match key, v with
  | "read", .str name =>
    if (ReadPreference.ofName? name).isNone then [.unknownPreference name] else []
  | _, _ => []

mutual

def call (s : Schema δ) : Call δ → List Event
  | .add d front => add s d front
  | .declare path d => declare s path d
  | .set key v => set key v
  | .plugin calls => callsUntilError s calls
  | .compile o d => compile o d
  | .attempt c => call s c
  | _ => []

/-- The events of calls in order, up to the first one that fails. -/
def callsUntilError (s : Schema δ) : List (Call δ) → List Event
  | [] => []
  | c :: cs =>
    call s c ++ match c.run s with
      | (s, .ok _) => callsUntilError s cs
      | (_, .error _) => []

end

end Trace

end DocSchema
