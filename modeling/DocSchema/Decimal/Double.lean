/-!
# Double-precision numbers

A double is kept as its 64 bits, so that two of them are compared by their bits and a value that
holds one has decidable equality. Arithmetic goes through `Float`. A finite double is
`± significand · 2 ^ exponent` with a natural significand; `significand` and `exponent` read these
off the bits, for everything that has to be exact.
-/

namespace DocSchema

/-- A double, by its bits. -/
structure Double where
  bits : UInt64
  deriving DecidableEq, Repr

namespace Double

def ofFloat (x : Float) : Double := ⟨x.toBits⟩

def toFloat (x : Double) : Float := Float.ofBits x.bits

/-- The sign bit: set on negative numbers and on the negative zero. -/
def isNegative (x : Double) : Bool := x.bits.toNat / Nat.pow 2 63 == 1

/-- The eleven bits that hold the biased exponent. -/
def biased (x : Double) : Nat := x.bits.toNat / Nat.pow 2 52 % Nat.pow 2 11

/-- The 52 stored bits of the significand. -/
def fraction (x : Double) : Nat := x.bits.toNat % Nat.pow 2 52

/-- The significand: the stored bits, with the implicit leading bit of a normal number. -/
def significand (x : Double) : Nat :=
  if x.biased = 0 then x.fraction else Nat.pow 2 52 + x.fraction

/-- The power of two that scales the significand. -/
def exponent (x : Double) : Int :=
  if x.biased = 0 then -1074 else (x.biased : Int) - 1075

/-- Whether the neighbour below is at half the distance of the neighbour above: at the powers of
two, the smallest normal number excepted. -/
def isPowerBoundary (x : Double) : Bool := x.fraction == 0 && decide (1 < x.biased)

/-- The whole part of a double that is not negative, and zero for a negative one. -/
def wholePart (x : Double) : Nat :=
  if x.isNegative then 0
  else if 0 ≤ x.exponent then x.significand * Nat.pow 2 x.exponent.toNat
  else x.significand / Nat.pow 2 (-x.exponent).toNat

end Double

end DocSchema
