import DocSchema.Decimal.Double

/-!
# The shortest decimal of a double

Every double stands for the interval of reals that round to it, ends included when its significand
is even. Its shortest decimal is the multiple of the largest power of ten that falls into this
interval; of two multiples of one power the nearer is taken, and of two equally near ones the even
one. The search goes down the powers of ten, in exact natural arithmetic.
-/

namespace DocSchema

/-- The number `digits · 10 ^ exponent`. -/
structure Decimal where
  digits : Nat
  exponent : Int
  deriving DecidableEq, Repr

namespace Double

/-- A quotient of naturals, to compare doubles with powers of ten exactly. -/
structure Ratio where
  num : Nat
  den : Nat

/-- `n · 2 ^ q · 10 ^ (-e)`, the number `n · 2 ^ q` counted in units of `10 ^ e`. -/
def Ratio.inUnits (n : Nat) (q e : Int) : Ratio where
  num := n * Nat.pow 2 q.toNat * Nat.pow 10 (-e).toNat
  den := Nat.pow 2 (-q).toNat * Nat.pow 10 e.toNat

/-- The multiple of `10 ^ e` that stands for the number, if one does. The ends of the interval and
the number itself are written in quarters of the last place, so that they share a denominator. -/
def nearestMultiple? (x : Double) (e : Int) : Option Nat :=
  let q := x.exponent - 2
  let value := Ratio.inUnits (4 * x.significand) q e
  let below := Ratio.inUnits (4 * x.significand - (if x.isPowerBoundary then 1 else 2)) q e
  let above := Ratio.inUnits (4 * x.significand + 2) q e
  let closed := x.significand % 2 == 0
  let inside (d : Nat) : Bool :=
    if closed then decide (below.num ≤ d * below.den) && decide (d * above.den ≤ above.num)
    else decide (below.num < d * below.den) && decide (d * above.den < above.num)
  let low := value.num / value.den
  let rest := value.num % value.den
  match inside low, inside (low + 1) with
  | false, false => none
  | true, false => some low
  | false, true => some (low + 1)
  | true, true =>
    if 2 * rest < value.den then some low
    else if value.den < 2 * rest then some (low + 1)
    else if low % 2 = 0 then some low else some (low + 1)

/-- The powers of ten that can be the last place of a shortest decimal, the largest first. -/
def decimalPlaces : List Int := (List.range 634).map fun (i : Nat) => 309 - (i : Int)

/-- The shortest decimal of the absolute value of a finite double. -/
def shortest (x : Double) : Decimal :=
  if x.significand = 0 then ⟨0, 0⟩
  else
    match decimalPlaces.findSome? fun e => (x.nearestMultiple? e).map (⟨·, e⟩) with
    | some d => d
    | none => ⟨0, 0⟩

end Double

end DocSchema
