import DocSchema.Json.Basic
import DocSchema.Decimal.Digits
import DocSchema.Decimal.Shortest
import DocSchema.Text.Quoted

/-!
# Printing JSON

The compact text of a value: no blanks, keys in the order of the table. A double is written with the
fewest digits that read back, positionally from `1e-5` up to below `1e16` and always with a point
there, and with a signed exponent elsewhere.

`chars` is a plain recursion over the value, so that facts about the text are proved by induction.
-/

namespace DocSchema

namespace Decimal

/-- How far a point may be from the first digit for a positional text: after at most sixteen digits,
or before the number with at most four zeros in between. -/
def isPositional (point : Int) : Bool := decide (-5 < point) && decide (point ≤ 16)

/-- The text of a decimal that is not negative. -/
def chars (d : Decimal) : List Char :=
  let ds := natChars d.digits
  let point : Int := ds.length + d.exponent
  if isPositional point then
    if 0 ≤ d.exponent then ds ++ List.replicate d.exponent.toNat '0' ++ ['.', '0']
    else if 0 < point then ds.take point.toNat ++ '.' :: ds.drop point.toNat
    else ['0', '.'] ++ List.replicate (-point).toNat '0' ++ ds
  else
    let power := point - 1
    let mantissa := ds.take 1 ++ (if ds.length = 1 then [] else '.' :: ds.drop 1)
    mantissa ++ 'e' :: (if 0 ≤ power then '+' else '-') :: natChars power.natAbs

end Decimal

def Double.chars (x : Double) : List Char :=
  let sign := if x.isNegative then ['-'] else []
  sign ++ (if x.significand = 0 then ['0', '.', '0'] else x.shortest.chars)

def Number.chars : Number → List Char
  | .int n => intChars n
  | .double x => x.chars

namespace Json

mutual

def chars : Json → List Char
  | .null => ['n', 'u', 'l', 'l']
  | .bool true => ['t', 'r', 'u', 'e']
  | .bool false => ['f', 'a', 'l', 's', 'e']
  | .num n => n.chars
  | .str s => Text.Quoted.json s.toList
  | .arr [] => ['[', ']']
  | .arr (v :: vs) => '[' :: (chars v ++ moreItems vs)
  | .obj [] => ['\x7b', '\x7d']
  | .obj ((k, v) :: fs) =>
    '\x7b' :: (Text.Quoted.json k.toList ++ ':' :: (chars v ++ moreFields fs))

/-- The items after the first one, each with the comma before it, and the closing bracket. -/
def moreItems : List Json → List Char
  | [] => [']']
  | v :: vs => ',' :: (chars v ++ moreItems vs)

/-- The fields after the first one, each with the comma before it, and the closing brace. -/
def moreFields : List (String × Json) → List Char
  | [] => ['\x7d']
  | (k, v) :: fs => ',' :: (Text.Quoted.json k.toList ++ ':' :: (chars v ++ moreFields fs))

end

def text (v : Json) : String := String.ofList v.chars

end Json

end DocSchema
