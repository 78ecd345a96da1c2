import DocSchema.Json.Basic
import DocSchema.Decimal.Digits
import DocSchema.Decimal.Reading

/-!
# Reading JSON

A recursive-descent reader over a list of characters. Every step that reads something returns the
characters that are left; the recursion is bounded by the length of the text, since a nested value
costs at least its bracket. The keys of an object keep the order in which they first occur, and a
repeated key takes its last value.

An integer literal that fits 64 bits is an integer. Every other number is a double: its digits are
gathered into a 64-bit significand, digits that no longer fit only scale it, and the significand is
then scaled by one power of ten.
-/

namespace DocSchema.Json.Parser

def isSpace (c : Char) : Bool := c = ' ' || c = '\n' || c = '\r' || c = '\t'

def skipSpaces (cs : List Char) : List Char := cs.dropWhile isSpace

/-- The largest significand, and the largest integer. -/
def maxUnsigned : Nat := Nat.pow 2 64 - 1

/-- Append digits to a significand as long as it fits 64 bits; with the number of digits taken. -/
def gather (significand : Nat) : List Char → Nat × Nat
  | [] => (significand, 0)
  | c :: cs =>
    let next := significand * 10 + digitValue c
    if next ≤ maxUnsigned then
      let (s, n) := gather next cs
      (s, n + 1)
    else (significand, 0)

/-- A double from the digits before the point, the digits after it and the exponent. -/
def double? (negative : Bool) (whole fraction : List Char) (power : Int) : Option Number :=
  let (s, n) := gather 0 whole
  let (s, m) := gather s fraction
  let exponent : Int := (whole.length - n : Nat) - (m : Int) + power
  (Double.scaled? negative s exponent).map .double

/-- The number of an integer literal: an integer where it fits, a double otherwise. The negative
zero is a double. -/
def integer? (negative : Bool) (whole : List Char) : Option Number :=
  let n := naturalValue whole
  if negative then
    if 0 < n ∧ n ≤ Nat.pow 2 63 then some (.int (-(n : Int))) else double? true whole [] 0
  else if n ≤ maxUnsigned then some (.int n)
  else double? false whole [] 0

/-- The part of a number after its digits before the point. -/
def numberTail? (negative : Bool) (whole rest : List Char) : Option (Number × List Char) := do
  let (fraction, rest, isFraction) ← match rest with
    | '.' :: rest =>
      let (ds, rest) := spanDigits rest
      if ds.isEmpty then none else some (ds, rest, true)
    | rest => some ([], rest, false)
  let exponentOf (rest : List Char) : Option (Number × List Char) := do
    let (negativePower, rest) := match rest with
      | '+' :: rest => (false, rest)
      | '-' :: rest => (true, rest)
      | rest => (false, rest)
    let (ds, rest) := spanDigits rest
    if ds.isEmpty then none
    let power : Int := naturalValue ds
    let n ← double? negative whole fraction (if negativePower then -power else power)
    some (n, rest)
  match rest with
  | 'e' :: rest => exponentOf rest
  | 'E' :: rest => exponentOf rest
  | rest =>
    let n ← if isFraction then double? negative whole fraction 0 else integer? negative whole
    some (n, rest)

/-- A number at the start of a text. No digit may follow a leading zero. -/
def number? (cs : List Char) : Option (Number × List Char) :=
  let (negative, cs) := match cs with
    | '-' :: cs => (true, cs)
    | cs => (false, cs)
  let (whole, rest) := spanDigits cs
  match whole with
  | [] => none
  | '0' :: _ :: _ => none
  | _ => numberTail? negative whole rest

def hexValue? (c : Char) : Option Nat :=
  if '0' ≤ c ∧ c ≤ '9' then some (c.toNat - 48)
  else if 'a' ≤ c ∧ c ≤ 'f' then some (c.toNat - 87)
  else if 'A' ≤ c ∧ c ≤ 'F' then some (c.toNat - 55)
  else none

def hex4? (a b c d : Char) : Option Nat := do
  let a ← hexValue? a
  let b ← hexValue? b
  let c ← hexValue? c
  let d ← hexValue? d
  some (((a * 16 + b) * 16 + c) * 16 + d)

/-- The character of a one-letter escape. -/
def escape? : Char → Option Char
  | '"' => some '"'
  | '\\' => some '\\'
  | '/' => some '/'
  | 'b' => some (Char.ofNat 8)
  | 'f' => some (Char.ofNat 12)
  | 'n' => some '\n'
  | 'r' => some '\r'
  | 't' => some '\t'
  | _ => none

/-- The rest of a string after its opening quote, up to and including the closing one. A pair of
surrogate escapes is one character, and a surrogate on its own is refused. -/
def stringBody? (acc : List Char) : List Char → Option (String × List Char)
  | '"' :: rest => some (String.ofList acc.reverse, rest)
  | '\\' :: 'u' :: a :: b :: c :: d :: rest =>
    match hex4? a b c d with
    | none => none
    | some n =>
      if 0xD800 ≤ n ∧ n < 0xDC00 then
        match rest with
        | '\\' :: 'u' :: a' :: b' :: c' :: d' :: rest' =>
          match hex4? a' b' c' d' with
          | none => none
          | some m =>
            if 0xDC00 ≤ m ∧ m < 0xE000 then
              stringBody? (Char.ofNat (0x10000 + (n - 0xD800) * 0x400 + (m - 0xDC00)) :: acc) rest'
            else none
        | _ => none
      else if 0xDC00 ≤ n ∧ n < 0xE000 then none
      else stringBody? (Char.ofNat n :: acc) rest
  | '\\' :: e :: rest =>
    match escape? e with
    | none => none
    | some c => stringBody? (c :: acc) rest
  | c :: rest => if c.toNat < 32 then none else stringBody? (c :: acc) rest
  | [] => none

def word? : List Char → List Char → Option (List Char)
  | [], rest => some rest
  | c :: w, d :: rest => if c = d then word? w rest else none
  | _ :: _, [] => none

mutual

/-- A value at the start of a text, after blanks. -/
def value? : Nat → List Char → Option (Json × List Char)
  | 0, _ => none
  | fuel + 1, cs =>
    match skipSpaces cs with
    | '"' :: rest => (stringBody? [] rest).map fun (s, rest) => (.str s, rest)
    | '[' :: rest =>
      match skipSpaces rest with
      | ']' :: rest => some (.arr [], rest)
      | _ => (items? fuel rest).map fun (vs, rest) => (.arr vs, rest)
    | '\x7b' :: rest =>
      match skipSpaces rest with
      | '\x7d' :: rest => some (.obj [], rest)
      | _ => (fields? fuel [] rest).map fun (fs, rest) => (.obj fs, rest)
    | 'n' :: rest => (word? "ull".toList rest).map fun rest => (.null, rest)
    | 't' :: rest => (word? "rue".toList rest).map fun rest => (.bool true, rest)
    | 'f' :: rest => (word? "alse".toList rest).map fun rest => (.bool false, rest)
    | cs => (number? cs).map fun (n, rest) => (.num n, rest)

/-- One or more items, up to and including the closing bracket. -/
def items? : Nat → List Char → Option (List Json × List Char)
  | 0, _ => none
  | fuel + 1, cs =>
    match value? fuel cs with
    | none => none
    | some (v, rest) =>
      match skipSpaces rest with
      | ']' :: rest => some ([v], rest)
      | ',' :: rest => (items? fuel rest).map fun (vs, rest) => (v :: vs, rest)
      | _ => none

/-- One or more fields, stored after the given ones, up to and including the closing brace. -/
def fields? : Nat → Table Json → List Char → Option (Table Json × List Char)
  | 0, _, _ => none
  | fuel + 1, acc, cs =>
    match skipSpaces cs with
    | '"' :: rest =>
      match stringBody? [] rest with
      | none => none
      | some (key, rest) =>
        match skipSpaces rest with
        | ':' :: rest =>
          match value? fuel rest with
          | none => none
          | some (v, rest) =>
            let acc := Table.insert acc key v
            match skipSpaces rest with
            | '\x7d' :: rest => some (acc, rest)
            | ',' :: rest => fields? fuel acc rest
            | _ => none
        | _ => none
    | _ => none

end

end DocSchema.Json.Parser

namespace DocSchema.Json

/-- The value written by a text that holds one JSON value and blanks. -/
def parse? (text : String) : Option Json :=
  let cs := text.toList
  match Parser.value? (cs.length + 1) cs with
  | some (v, rest) => if (Parser.skipSpaces rest).isEmpty then some v else none
  | none => none

end DocSchema.Json
