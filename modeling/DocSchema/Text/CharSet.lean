/-!
# Sets of characters

A set of characters is a list of closed ranges of code points, in increasing order.
-/

namespace DocSchema.Text

/-- Closed ranges of code points, in increasing order. -/
abbrev CharSet := List (Nat × Nat)

/-- Membership of a code point. The search ends at the first range that lies above it. -/
def CharSet.hasCode : CharSet → Nat → Bool
  | [], _ => false
  | (first, last) :: rest, n => if n < first then false else n ≤ last || hasCode rest n

def CharSet.has (set : CharSet) (c : Char) : Bool := set.hasCode c.toNat

end DocSchema.Text
