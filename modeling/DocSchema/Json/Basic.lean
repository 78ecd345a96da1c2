import DocSchema.Table
import DocSchema.Decimal.Double

/-!
# JSON values

Values as they are read and printed: an object is a table, so the order of its keys is part of the
value. A number is either an integer that fits 64 bits, signed or unsigned, or a double.
-/

namespace DocSchema

inductive Number where
  | int (n : Int)
  | double (x : Double)
  deriving DecidableEq, Repr

inductive Json where
  | null
  | bool (b : Bool)
  | num (n : Number)
  | str (s : String)
  | arr (items : List Json)
  | obj (fields : List (String × Json))
  deriving Repr

namespace Json

instance : Inhabited Json := ⟨.null⟩

def int (n : Int) : Json := .num (.int n)

def asBool? : Json → Option Bool
  | .bool b => some b
  | _ => none

def asString? : Json → Option String
  | .str s => some s
  | _ => none

def asObject? : Json → Option (Table Json)
  | .obj fields => some fields
  | _ => none

/-- The field of an object; nothing on any other value. -/
def field? (v : Json) (key : String) : Option Json :=
  v.asObject?.bind (Table.get? · key)

def isNull : Json → Bool
  | .null => true
  | _ => false

end Json

end DocSchema
