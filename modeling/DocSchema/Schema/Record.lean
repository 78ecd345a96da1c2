import DocSchema.Index.Duration
import DocSchema.Schema.Rendering

/-!
# Records of fields

An object that holds something under the type key is the record of one field; null and `false` hold
nothing there. The other keys of a record are its settings. The keys that make an index belong
together: an index that is switched off with `index: false` stays off, whatever the other keys say,
and only dates expire.
-/

namespace DocSchema

variable {δ : Type}

namespace Definition

/-- Whether a definition says nothing at all. -/
def isNull : Definition δ → Bool
  | .literal .null => true
  | _ => false

/-- Whether a definition counts as not given in the place of a type. -/
def isUnset : Definition δ → Bool
  | .literal .null => true
  | .literal (.bool false) => true
  | _ => false

def isTrue : Definition δ → Bool
  | .literal (.bool true) => true
  | _ => false

/-- What a record holds under the type key, if it holds something there. -/
def statedType? (record : Table (Definition δ)) (typeKey : String) : Option (Definition δ) :=
  (Table.get? record typeKey).filter fun d => !d.isUnset

/-- Whether the fields of an object are a group of fields and not the record of one. -/
def isGroup (fields : Table (Definition δ)) (typeKey : String) : Bool :=
  (statedType? fields typeKey).isNone

/-- The record of a field, given the fields of an object: a record whose type is a record is that
inner record. -/
def unwrapped (typeKey : String) (fields : Table (Definition δ)) : Table (Definition δ) :=
  match statedType? fields typeKey with
  | some (.object inner) => if isGroup inner typeKey then fields else inner
  | _ => fields

/-- The record of a definition. What is no object stands for its own type. -/
def record (typeKey : String) : Definition δ → Table (Definition δ)
  | .object fields => unwrapped typeKey fields
  | d => [(typeKey, d)]

end Definition

/-- The requirement that a definition states: `true`, a message, or an array of `true` and a
message. -/
def Required.ofDefinition? : Definition δ → Option Required
  | .literal (.bool true) => some {}
  | .literal (.str m) => some { message := some m }
  | .array (.literal (.bool true) :: .literal (.str m) :: _) => some { message := some m }
  | .array (.literal (.bool true) :: _) => some {}
  | _ => none

/-! ## Indexes -/

/-- What the key `index` of a record says. -/
inductive IndexSwitch where
  | off
  | unsaid
  | on (i : FieldIndex)

namespace IndexSwitch

/-- The index of an object: its type is the direction, unless it is a text index; the rest are
options. -/
def ofOptions (options : Table Json) : FieldIndex :=
  let kind := Table.get? options "type"
  let options := Table.swapErase options "type"
  let text := Table.get? options "text"
  let options := Table.swapErase options "text"
  let direction := match text with
    | some (.bool true) => some (.special .text)
    | _ => kind.bind Direction.ofJson?
  { direction, options }

def ofDefinition? : Option (Definition δ) → IndexSwitch
  | none => .unsaid
  | some d =>
    match d.toJson with
    | .null => .off
    | .bool false => .off
    | .bool true => .on {}
    | .obj options => .on (ofOptions options)
    | v => .on { direction := Direction.ofJson? v }

end IndexSwitch

namespace FieldIndex

/-- Whether a record switches something on. -/
def switchedOn (record : Table (Definition δ)) (key : String) : Bool :=
  match Table.get? record key with
  | some d => d.isTrue
  | none => false

/-- An index with one more option. There is an index from then on. -/
def withOption (i : Option FieldIndex) (key : String) (v : Json) : Option FieldIndex :=
  let i := i.getD {}
  some { i with options := Table.insert i.options key v }

/-- An index that is made unique or sparse where the record switches that on. -/
def addFlag (record : Table (Definition δ)) (flag : String) (i : Option FieldIndex) :
    Option FieldIndex :=
  if switchedOn record flag then withOption i flag (.bool true) else i

/-- A text index where the record switches that on. -/
def addText (record : Table (Definition δ)) (i : Option FieldIndex) : Option FieldIndex :=
  if switchedOn record "text" then some { i.getD {} with direction := some (.special .text) } else i

/-- An index that lets documents expire, where the record of a date says when. -/
def addExpiry (record : Table (Definition δ)) (isDate : Bool) (i : Option FieldIndex) :
    Option FieldIndex :=
  match (Table.get? record "expires").bind fun d => Duration.expireAfterSeconds? d.toJson with
  | some seconds => if isDate then withOption i "expireAfterSeconds" (.int seconds) else i
  | none => i

def ofRecord? (record : Table (Definition δ)) (isDate : Bool) : Option FieldIndex :=
  let extend (i : Option FieldIndex) : Option FieldIndex :=
    addExpiry record isDate (addText record (addFlag record "sparse" (addFlag record "unique" i)))
  match IndexSwitch.ofDefinition? (Table.get? record "index") with
  | .off => none
  | .unsaid => extend none
  | .on i => extend (some i)

end FieldIndex

/-! ## Settings -/

namespace Settings

/-- The keys of a record that make its index. -/
def indexKeys : List String := ["index", "unique", "sparse", "text", "expires"]

/-- The keys of a record that say something else than the type. -/
def optionKeys : List String :=
  ["required", "index", "unique", "sparse", "text", "expires", "default", "cast", "ref", "select",
    "auto"]

/-- Whether a key of a record is read for the type or the index of the field. -/
def isStructural (typeKey key : String) : Bool :=
  key = typeKey || key = "cast" || indexKeys.contains key

/-- Keep a setting that has no place of its own. -/
def keep (s : Settings) (key : String) (d : Definition δ) : Settings :=
  { s with extra := Table.insert s.extra key d.toJson }

/-- Take one key of a record into the settings. A value of the wrong kind is kept as it is. -/
def take (s : Settings) (key : String) (d : Definition δ) : Settings :=
  if key = "required" then { s with required := Required.ofDefinition? d }
  else if key = "default" then { s with defaultValue := some d.toJson }
  else if key = "ref" then
    match d with
    | .literal (.str target) => { s with reference := some target }
    | d => s.keep key d
  else if key = "select" then
    match d with
    | .literal (.bool b) => { s with select := some b }
    | d => s.keep key d
  else if key = "auto" then
    match d with
    | .literal (.bool b) => { s with auto := b }
    | d => s.keep key d
  else s.keep key d

/-- Take the keys of a record into the settings, in order. -/
def takeAll (typeKey : String) (s : Settings) : List (String × Definition δ) → Settings
  | [] => s
  | (key, d) :: rest => takeAll typeKey (if isStructural typeKey key then s else s.take key d) rest

def ofRecord (record : Table (Definition δ)) (typeKey : String) (scalar : Option Scalar) :
    Settings :=
  takeAll typeKey { index := FieldIndex.ofRecord? record (scalar = some .date) } record

end Settings

end DocSchema
