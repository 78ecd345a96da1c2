import DocSchema.Decimal.Double

/-!
# Doubles from decimals

Two readings of a decimal as a double. `Double.nearest` rounds once, in exact natural arithmetic.
`Double.scaled?` rounds the significand first and then multiplies it by, or divides it by, one power
of ten: the fast reading, which may be a unit in the last place off, and which fails where the
number is too large for a double.
-/

namespace DocSchema.Double

/-- A quotient rounded to a natural number, a half to the even neighbour. -/
def roundedQuotient (num den : Nat) : Nat :=
  let whole := num / den
  let rest := num % den
  if 2 * rest < den then whole else if den < 2 * rest then whole + 1 else whole + whole % 2

/-- The power of two of the last place of the double nearest to `num / den`. The quotient counted in
units of this place has 53 bits, or fewer where the double is below the normal ones. -/
def lastPlace (num den : Nat) : Int :=
  let q : Int := (num.log2 : Int) - den.log2 - 53
  let fits := decide (num * Nat.pow 2 (-q).toNat < Nat.pow 2 53 * den * Nat.pow 2 q.toNat)
  max (if fits then q else q + 1) (-1074)

/-- The double nearest to `num / den`, and infinity where this is too large. A significand that is
rounded up to 54 bits carries into the exponent. -/
def ofQuotient (num den : Nat) : Double :=
  if num = 0 then ⟨0⟩
  else
    let q := lastPlace num den
    let m := roundedQuotient (num * Nat.pow 2 (-q).toNat) (den * Nat.pow 2 q.toNat)
    ⟨UInt64.ofNat (min ((q + 1074).toNat * Nat.pow 2 52 + m) (2047 * Nat.pow 2 52))⟩

/-- The double nearest to `digits · 10 ^ (-places)`. -/
def nearest (digits places : Nat) : Double := ofQuotient digits (Nat.pow 10 places)

/-- The float `10 ^ n` for the powers that a double holds. -/
def powerOfTen (n : Nat) : Float := (ofQuotient (Nat.pow 10 n) 1).toFloat

/-- Divide by `10 ^ n`, in steps of `10 ^ 308`. -/
def scaleDown (x : Float) (n : Nat) : Float :=
  if n ≤ 308 then x / powerOfTen n
  else if x == 0 then x
  else scaleDown (x / powerOfTen 308) (n - 308)
termination_by n

/-- `± significand · 10 ^ exponent`, the significand rounded before it is scaled. -/
def scaled? (negative : Bool) (significand : Nat) (exponent : Int) : Option Double :=
  let x := Float.ofNat significand
  let magnitude : Option Float :=
    if exponent < 0 then some (scaleDown x (-exponent).toNat)
    else if exponent ≤ 308 then
      let y := x * powerOfTen exponent.toNat
      if y.isInf then none else some y
    else if x == 0 then some x
    else none
  magnitude.map fun y => ofFloat (if negative then -y else y)

end DocSchema.Double
