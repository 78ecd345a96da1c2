/-!
# Decimal digits

Writing a natural number in base ten, and reading it back: `naturalValue_natChars`.
-/

namespace DocSchema

/-- The decimal digits of a natural number, without leading zeros. -/
def natChars (n : Nat) : List Char :=
  if n < 10 then [Char.ofNat (48 + n)] else natChars (n / 10) ++ [Char.ofNat (48 + n % 10)]
termination_by n
decreasing_by omega

/-- The decimal digits of an integer, after a minus sign where it is negative. -/
def intChars (n : Int) : List Char :=
  if n < 0 then '-' :: natChars n.natAbs else natChars n.natAbs

def natText (n : Nat) : String := String.ofList (natChars n)

def digitValue (c : Char) : Nat := c.toNat - 48

def naturalValue (ds : List Char) : Nat := ds.foldl (fun n c => n * 10 + digitValue c) 0

/-- The digits at the start of a text, and what follows them. -/
def spanDigits (cs : List Char) : List Char × List Char :=
  (cs.takeWhile Char.isDigit, cs.dropWhile Char.isDigit)

theorem digitValue_digit : ∀ d, d < 10 → digitValue (Char.ofNat (48 + d)) = d := by decide

/-- Reading what was written gives the number back. -/
theorem naturalValue_natChars (n : Nat) : naturalValue (natChars n) = n := by
  rw [natChars]
  split
  · next h => simp [naturalValue, digitValue_digit n h]
  · have ih := naturalValue_natChars (n / 10)
    unfold naturalValue at ih ⊢
    rw [List.foldl_append, ih]
    simp only [List.foldl_cons, List.foldl_nil, digitValue_digit (n % 10) (by omega)]
    omega
termination_by n
decreasing_by omega

end DocSchema
