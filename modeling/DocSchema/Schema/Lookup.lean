import DocSchema.Path.Position
import DocSchema.Schema.Basic

/-!
# Looking up paths

A path is found among the declared fields and groups, among the fields and groups of embedded
schemas, or by following it through positions in arrays. `lookup` and `classify` are two views of
the same search. What was found at a path with positions is remembered until the next declaration,
so a look-up gives back the schema beside its answer.

`locate` follows a path through positions. A position in the middle of a path stands for a document
of an array and a name after it is looked up in the schema of these documents; a position at the end
is an element of an array of values.
-/

namespace DocSchema

variable {δ : Type}

inductive PathClass where
  | real | virtual | nested | adhocOrUndefined
  deriving DecidableEq, Repr

def PathClass.name : PathClass → String
  | .real => "real"
  | .virtual => "virtual"
  | .nested => "nested"
  | .adhocOrUndefined => "adhocOrUndefined"

inductive Lookup (δ : Type) where
  | field (t : FieldType δ)
  | group
  | notFound

namespace Located

def pathClass : Located δ → PathClass
  | .field _ => .real
  | .group => .nested
  | .nowhere => .adhocOrUndefined

def field? : Located δ → Option (FieldType δ)
  | .field t => some t
  | _ => none

def isGroup : Located δ → Bool
  | .group => true
  | _ => false

end Located

namespace Schema

/-- The field at a path that needs no search: declared here, remembered, or of an embedded
schema. -/
def direct? (s : Schema δ) (path : String) : Option (FieldType δ) :=
  (Table.get? s.fields path).or
    (((Table.get? s.located path).bind Located.field?).or (Table.get? s.embeddedFields path))

/-- Whether a path is a group, here or in an embedded schema. -/
def hasGroup (s : Schema δ) (path : String) : Bool :=
  s.groups.contains path || s.embeddedGroups.contains path

/-- Follow the steps after those that led to `current`. A name that is no field may be a group. -/
def follow (current : Option (FieldType δ)) (isGroup : Bool) : List Path.Step → Located δ
  | [] =>
    match current with
    | some t => .field t
    | none => if isGroup then .group else .nowhere
  | [.position] =>
    match current.bind FieldType.element? with
    | some t => .field t
    | none => .nowhere
  | .position :: rest => follow current false rest
  | .field name :: rest =>
    match current.bind FieldType.schema? with
    | some child => follow (child.direct? name) (child.groups.contains name) rest
    | none => .nowhere

/-- What is found by following a path through positions. -/
def locate (s : Schema δ) (path : String) : Located δ :=
  match Path.steps path with
  | .field name :: rest => follow (s.direct? name) false rest
  | _ => .nowhere

/-- What is found at a path with positions, remembered from then on. -/
def remember (s : Schema δ) (path : String) : Schema δ × Located δ :=
  match Table.get? s.located path with
  | some found => (s, found)
  | none =>
    let found := s.locate path
    ({ s with located := Table.insert s.located path found }, found)

def lookup (s : Schema δ) (path : String) : Schema δ × Lookup δ :=
  let s :=
    if (s.direct? path).isNone && !s.hasGroup path && Path.isPositional path then
      (s.remember path).1
    else s
  match s.direct? path with
  | some t => (s, .field t)
  | none =>
    if s.hasGroup path || ((Table.get? s.located path).map Located.isGroup).getD false then
      (s, .group)
    else (s, .notFound)

def classify (s : Schema δ) (path : String) : Schema δ × PathClass :=
  if Table.contains s.fields path then (s, .real)
  else if Table.contains s.virtuals path then (s, .virtual)
  else if s.hasGroup path then (s, .nested)
  else if (s.direct? path).isSome then (s, .real)
  else if Path.isPositional path then
    let (s, found) := s.remember path
    (s, found.pathClass)
  else (s, .adhocOrUndefined)

def isGroup (s : Schema δ) (path : String) : Bool := s.groups.contains path

/-- Whether a path or one of its ancestors is a field that holds anything. -/
def isUnderMixed (s : Schema δ) (path : String) : Bool :=
  (Path.ancestors path ++ [path]).any fun p =>
    match Table.get? s.fields p with
    | some t => t.isMixed
    | none => false

/-- The paths of the fields that have to be set, in order. -/
def requiredFields (s : Schema δ) : List String :=
  (s.fields.filter fun e => e.2.isRequired).map Prod.fst

/-- The required paths as they were when first asked for, or as they are now if that is wanted. -/
def requiredPaths (s : Schema δ) (anew : Bool) : Schema δ × List String :=
  match s.knownRequired with
  | some paths =>
    if anew then ({ s with knownRequired := some s.requiredFields }, s.requiredFields)
    else (s, paths)
  | none => ({ s with knownRequired := some s.requiredFields }, s.requiredFields)

end Schema

end DocSchema
