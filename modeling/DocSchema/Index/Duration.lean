import DocSchema.Json.Basic
import DocSchema.Decimal.Digits
import DocSchema.Decimal.Reading
import DocSchema.Text.Blank
import DocSchema.Text.Case

/-!
# Durations

After how many seconds a document expires. A number counts seconds. A text is an amount and an
optional unit, with white space allowed around and between them; without a unit the amount counts
milliseconds. Seconds are whole: the rest is cut off, a negative number counts as zero, and nothing
is larger than the largest unsigned 64-bit integer.
-/

namespace DocSchema

inductive TimeUnit where
  | millisecond | second | minute | hour | day | week | year
  deriving DecidableEq, Repr

namespace TimeUnit

/-- The spellings of a unit, in lower case. The unit of a bare number has an empty spelling. -/
def spellings : TimeUnit → List String
  | .millisecond => ["", "ms", "msec", "msecs", "millisecond", "milliseconds"]
  | .second => ["s", "sec", "secs", "second", "seconds"]
  | .minute => ["m", "min", "mins", "minute", "minutes"]
  | .hour => ["h", "hr", "hrs", "hour", "hours"]
  | .day => ["d", "day", "days"]
  | .week => ["w", "week", "weeks"]
  | .year => ["y", "yr", "yrs", "year", "years"]

/-- The length of a unit. A year has 365 days and a quarter. -/
def milliseconds : TimeUnit → Nat
  | .millisecond => 1
  | .second => 1000
  | .minute => 60000
  | .hour => 3600000
  | .day => 86400000
  | .week => 604800000
  | .year => 31557600000

def all : List TimeUnit := [.millisecond, .second, .minute, .hour, .day, .week, .year]

/-- The unit of a spelling, whatever the case of its letters. -/
def ofSpelling? (cs : List Char) : Option TimeUnit :=
  all.find? fun u => u.spellings.contains (String.ofList (Text.lowerAscii cs))

end TimeUnit

namespace Duration

/-- The decimal `digits / 10 ^ places`. -/
structure Amount where
  digits : Nat
  places : Nat
  deriving DecidableEq, Repr

def isAmountChar (c : Char) : Bool := c.isDigit || c = '.'

/-- An amount: digits with at most one point before, among or after them. -/
def amount? (cs : List Char) : Option Amount :=
  let (whole, rest) := spanDigits cs
  match rest with
  | [] => if whole.isEmpty then none else some ⟨naturalValue whole, 0⟩
  | '.' :: fraction =>
    if fraction.all Char.isDigit && !(whole ++ fraction).isEmpty then
      some ⟨naturalValue (whole ++ fraction), fraction.length⟩
    else none
  | _ => none

def maxSeconds : Nat := Nat.pow 2 64 - 1

/-- The whole seconds of an amount of some unit. The amount is rounded to a double, and so are its
product with the unit and the quotient by a thousand. -/
def seconds (a : Amount) (u : TimeUnit) : Nat :=
  let x := (Double.nearest a.digits a.places).toFloat * Float.ofNat u.milliseconds / 1000.0
  x.toUInt64.toNat

def secondsOfText? (s : String) : Option Nat := do
  let cs := Text.trim s.toList
  let a ← amount? (cs.takeWhile isAmountChar)
  let u ← TimeUnit.ofSpelling? (Text.trim (cs.dropWhile isAmountChar))
  some (seconds a u)

def secondsOfNumber : Number → Nat
  | .int n => n.toNat
  | .double x => min x.wholePart maxSeconds

def expireAfterSeconds? : Json → Option Nat
  | .num n => some (secondsOfNumber n)
  | .str s => secondsOfText? s
  | _ => none

end Duration

end DocSchema
