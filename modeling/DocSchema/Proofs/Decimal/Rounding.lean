import Mathlib.Order.Monotone.Basic
import Mathlib.Tactic.FieldSimp
import Mathlib.Tactic.Linarith
import Mathlib.Tactic.NormNum
import DocSchema.Proofs.Decimal.Texts

/-!
# Doubles and their decimals

Every number rounds to one double only. The intervals of numbers that round to a double lie side by
side (`upper_eq_lower_succ`), and of two neighbours that share an end only the one with an even
significand takes it (`rounds_unique`). The shortest decimal of a double lies in the interval of
this double (`rounds_shortest`), so the text of a double says which one it is (`chars_injective`).
-/

namespace DocSchema

/-! ### Comparing in units -/

namespace Double

theorem zpow_eq_div (b : ℚ) (hb : b ≠ 0) (n : Int) : b ^ n = b ^ n.toNat / b ^ (-n).toNat := by
  rw [← zpow_natCast, ← zpow_natCast, ← zpow_sub₀ hb]
  congr 1
  omega

theorem Ratio.den_pos (n : Nat) (q e : Int) : 0 < (Ratio.inUnits n q e).den :=
  Nat.mul_pos (Nat.pow_pos (by decide)) (Nat.pow_pos (by decide))

/-- The ratio is the number counted in units of a power of ten. -/
theorem Ratio.inUnits_eq (n : Nat) (q e : Int) :
    ((Ratio.inUnits n q e).num : ℚ) / (Ratio.inUnits n q e).den =
      n * (2 : ℚ) ^ q / (10 : ℚ) ^ e := by
  rw [zpow_eq_div 2 (by norm_num) q, zpow_eq_div 10 (by norm_num) e]
  simp only [inUnits, Nat.pow_eq]
  push_cast
  field_simp

theorem Ratio.num_le_iff {n d : Nat} {q e : Int} :
    (Ratio.inUnits n q e).num ≤ d * (Ratio.inUnits n q e).den ↔
      n * (2 : ℚ) ^ q ≤ d * (10 : ℚ) ^ e := by
  have den : (0 : ℚ) < (Ratio.inUnits n q e).den := by exact_mod_cast den_pos n q e
  have unit : (0 : ℚ) < (10 : ℚ) ^ e := zpow_pos (by norm_num) e
  rw [← div_le_iff₀ unit, ← inUnits_eq, div_le_iff₀ den]
  exact_mod_cast Iff.rfl

theorem Ratio.le_num_iff {n d : Nat} {q e : Int} :
    d * (Ratio.inUnits n q e).den ≤ (Ratio.inUnits n q e).num ↔
      d * (10 : ℚ) ^ e ≤ n * (2 : ℚ) ^ q := by
  have den : (0 : ℚ) < (Ratio.inUnits n q e).den := by exact_mod_cast den_pos n q e
  have unit : (0 : ℚ) < (10 : ℚ) ^ e := zpow_pos (by norm_num) e
  rw [← le_div_iff₀ unit, ← inUnits_eq, le_div_iff₀ den]
  exact_mod_cast Iff.rfl

theorem Ratio.num_lt_iff {n d : Nat} {q e : Int} :
    (Ratio.inUnits n q e).num < d * (Ratio.inUnits n q e).den ↔
      n * (2 : ℚ) ^ q < d * (10 : ℚ) ^ e := by
  rw [← not_le, le_num_iff, not_le]

theorem Ratio.lt_num_iff {n d : Nat} {q e : Int} :
    d * (Ratio.inUnits n q e).den < (Ratio.inUnits n q e).num ↔
      d * (10 : ℚ) ^ e < n * (2 : ℚ) ^ q := by
  rw [← not_le, num_le_iff, not_le]

/-! ### The interval of a double -/

/-- The lower end of the numbers that round to a double. -/
def lower (x : Double) : ℚ :=
  (4 * x.significand - (if x.isPowerBoundary then 1 else 2)) * (2 : ℚ) ^ (x.exponent - 2)

def upper (x : Double) : ℚ := (4 * x.significand + 2) * (2 : ℚ) ^ (x.exponent - 2)

/-- Whether a number rounds to the absolute value of a double. -/
def Rounds (x : Double) (r : ℚ) : Prop :=
  if x.significand % 2 = 0 then x.lower ≤ r ∧ r ≤ x.upper else x.lower < r ∧ r < x.upper

theorem Rounds.mem {x : Double} {r : ℚ} (h : x.Rounds r) : x.lower ≤ r ∧ r ≤ x.upper := by
  unfold Rounds at h
  split at h
  · exact h
  · exact ⟨h.1.le, h.2.le⟩

/-- Whether a multiple of a power of ten is found to lie in the interval. -/
def inside (x : Double) (e : Int) (d : Nat) : Bool :=
  let q := x.exponent - 2
  let below := Ratio.inUnits (4 * x.significand - (if x.isPowerBoundary then 1 else 2)) q e
  let above := Ratio.inUnits (4 * x.significand + 2) q e
  if x.significand % 2 == 0 then decide (below.num ≤ d * below.den) && decide (d * above.den ≤ above.num)
  else decide (below.num < d * below.den) && decide (d * above.den < above.num)

theorem inside_iff {x : Double} (hx : x.significand ≠ 0) {e : Int} {d : Nat} :
    x.inside e d = true ↔ x.Rounds (d * (10 : ℚ) ^ e) := by
  have lower : x.lower = ((4 * x.significand - (if x.isPowerBoundary then 1 else 2) : Nat) : ℚ) *
      (2 : ℚ) ^ (x.exponent - 2) := by
    have room : (if x.isPowerBoundary then 1 else 2) ≤ 4 * x.significand := by
      split <;> omega
    rw [Double.lower, Nat.cast_sub room]
    push_cast
    split <;> rfl
  have upper : x.upper = ((4 * x.significand + 2 : Nat) : ℚ) * (2 : ℚ) ^ (x.exponent - 2) := by
    rw [Double.upper]
    push_cast
    rfl
  unfold inside Rounds
  by_cases even : x.significand % 2 = 0
  · simp only [even, beq_self_eq_true, if_true, Bool.and_eq_true, decide_eq_true_eq,
      Ratio.num_le_iff, Ratio.le_num_iff, lower, upper]
  · simp only [even, beq_iff_eq, if_false, Bool.and_eq_true, decide_eq_true_eq,
      Ratio.num_lt_iff, Ratio.lt_num_iff, lower, upper]

def lowMultiple (x : Double) (e : Int) : Nat :=
  (Ratio.inUnits (4 * x.significand) (x.exponent - 2) e).num /
    (Ratio.inUnits (4 * x.significand) (x.exponent - 2) e).den

/-- The multiple that is chosen lies in the interval, and one is chosen if one of the two next to
the double does. -/
theorem nearestMultiple?_cases (x : Double) (e : Int) :
    (∃ n, x.nearestMultiple? e = some n ∧ x.inside e n = true) ∨
      x.nearestMultiple? e = none ∧ x.inside e (x.lowMultiple e + 1) = false := by
  unfold nearestMultiple?
  dsimp only
  split
  · next h => exact .inr ⟨rfl, h⟩
  · next h _ => exact .inl ⟨_, rfl, h⟩
  · next _ h => exact .inl ⟨_, rfl, h⟩
  · next h h' =>
    refine .inl ?_
    split
    · exact ⟨_, rfl, h⟩
    · split
      · exact ⟨_, rfl, h'⟩
      · split
        · exact ⟨_, rfl, h⟩
        · exact ⟨_, rfl, h'⟩

theorem neg1074_le_exponent (x : Double) : -1074 ≤ x.exponent := by
  unfold exponent
  split <;> omega

theorem lower_lt (x : Double) : x.lower < 4 * x.significand * (2 : ℚ) ^ (x.exponent - 2) := by
  have unit : (0 : ℚ) < (2 : ℚ) ^ (x.exponent - 2) := zpow_pos (by norm_num) _
  refine mul_lt_mul_of_pos_right ?_ unit
  split <;> linarith

theorem two_pow_lt_ten_pow : (2 : ℚ) ^ 1075 < (10 : ℚ) ^ 324 :=
  calc (2 : ℚ) ^ 1075 = 2 ^ 323 * (2 ^ 188) ^ 4 := by rw [← pow_mul, ← pow_add]
    _ < 2 ^ 323 * (5 ^ 81) ^ 4 := by gcongr; norm_num
    _ ≤ 2 ^ 324 * (5 ^ 81) ^ 4 := by gcongr <;> norm_num
    _ = 10 ^ 324 := by rw [← pow_mul, ← mul_pow]; norm_num

/-- The last of the powers of ten is finer than the upper half of any interval. -/
theorem last_place_lt (x : Double) : (10 : ℚ) ^ (-324 : Int) < 2 * (2 : ℚ) ^ (x.exponent - 2) := by
  have small : (10 : ℚ) ^ (-324 : Int) < (2 : ℚ) ^ (-1075 : Int) := by
    rw [zpow_neg, zpow_neg]
    exact inv_strictAnti₀ (zpow_pos (by norm_num) _) two_pow_lt_ten_pow
  have half : 2 * (2 : ℚ) ^ (x.exponent - 2) = (2 : ℚ) ^ (x.exponent - 1) := by
    rw [← zpow_one_add₀ (by norm_num)]
    congr 1
    omega
  rw [half]
  have bound := neg1074_le_exponent x
  exact small.trans_le (zpow_le_zpow_right₀ (by norm_num) (by omega))

/-- At the last of the powers of ten, the multiple just above a double lies in the interval. -/
theorem inside_last_place {x : Double} (hx : x.significand ≠ 0) :
    x.inside (-324) (x.lowMultiple (-324) + 1) = true := by
  have den := Ratio.den_pos (4 * x.significand) (x.exponent - 2) (-324)
  have low := Ratio.le_num_iff.1 (Nat.div_mul_le_self
    (Ratio.inUnits (4 * x.significand) (x.exponent - 2) (-324)).num
    (Ratio.inUnits (4 * x.significand) (x.exponent - 2) (-324)).den)
  have high := Ratio.num_lt_iff.1 (Nat.lt_mul_of_div_lt
    (Nat.lt_add_one (x.lowMultiple (-324))) den)
  rw [inside_iff hx]
  rw [← lowMultiple] at low
  simp only [Nat.cast_add, Nat.cast_one, Nat.cast_mul, Nat.cast_ofNat] at low high ⊢
  have below := lower_lt x
  have step := last_place_lt x
  have within : x.lower < ((x.lowMultiple (-324) : ℚ) + 1) * (10 : ℚ) ^ (-324 : Int) ∧
      ((x.lowMultiple (-324) : ℚ) + 1) * (10 : ℚ) ^ (-324 : Int) < x.upper := by
    refine ⟨below.trans high, ?_⟩
    rw [upper]
    linarith
  unfold Rounds
  split
  · exact ⟨within.1.le, within.2.le⟩
  · exact within

/-- The shortest decimal of a double rounds to the double. -/
theorem rounds_shortest {x : Double} (hx : x.significand ≠ 0) : x.Rounds x.shortest.value := by
  rw [shortest, if_neg hx]
  split
  · next d hd =>
    obtain ⟨e, -, he⟩ := List.exists_of_findSome?_eq_some hd
    obtain ⟨n, hn, rfl⟩ := Option.map_eq_some_iff.1 he
    rcases nearestMultiple?_cases x e with ⟨m, hm, within⟩ | ⟨none, -⟩
    · obtain rfl := Option.some.inj (hn.symm.trans hm)
      exact (inside_iff hx).1 within
    · rw [hn] at none
      cases none
  · next none =>
    have last : (-324 : Int) ∈ decimalPlaces := by
      rw [decimalPlaces, List.mem_map]
      exact ⟨633, List.mem_range.2 (by omega), rfl⟩
    have missing := List.findSome?_eq_none_iff.1 none _ last
    rw [Option.map_eq_none_iff] at missing
    rcases nearestMultiple?_cases x (-324) with ⟨m, hm, -⟩ | ⟨-, outside⟩
    · rw [missing] at hm
      cases hm
    · rw [inside_last_place hx] at outside
      cases outside

/-! ### Neighbours -/

/-- The bits of a double without its sign. -/
def magnitude (x : Double) : Nat := x.bits.toNat % Nat.pow 2 63

theorem eq_of_magnitude {x y : Double} (sign : x.isNegative = y.isNegative)
    (h : x.magnitude = y.magnitude) : x = y := by
  obtain ⟨a⟩ := x
  obtain ⟨b⟩ := y
  have ha := a.toNat_lt
  have hb := b.toNat_lt
  simp only [isNegative, magnitude, Nat.pow_eq] at sign h
  have same : a.toNat = b.toNat := by
    rw [Bool.eq_iff_iff, beq_iff_eq, beq_iff_eq] at sign
    omega
  rw [UInt64.toNat_inj.1 same]

theorem biased_eq (x : Double) : x.biased = x.magnitude / 2 ^ 52 := by
  simp only [biased, magnitude, Nat.pow_eq]
  omega

theorem fraction_eq (x : Double) : x.fraction = x.magnitude % 2 ^ 52 := by
  simp only [fraction, magnitude, Nat.pow_eq]
  omega

/-- The parity of a significand is that of the bits. -/
theorem significand_parity (x : Double) : x.significand % 2 = x.magnitude % 2 := by
  rw [significand, biased_eq, fraction_eq, Nat.pow_eq]
  split <;> omega

/-- The lower end of the interval of a double, by its biased exponent and its fraction. -/
def lowerOf (biased fraction : Nat) : ℚ :=
  if biased = 0 then (4 * fraction - 2) * (2 : ℚ) ^ (-1076 : Int)
  else (4 * (2 ^ 52 + fraction) - (if fraction = 0 ∧ 1 < biased then 1 else 2)) *
    (2 : ℚ) ^ ((biased : Int) - 1077)

def upperOf (biased fraction : Nat) : ℚ :=
  if biased = 0 then (4 * fraction + 2) * (2 : ℚ) ^ (-1076 : Int)
  else (4 * (2 ^ 52 + fraction) + 2) * (2 : ℚ) ^ ((biased : Int) - 1077)

theorem lower_eq (x : Double) : x.lower = lowerOf x.biased x.fraction := by
  rw [lower, lowerOf, isPowerBoundary, significand, exponent]
  by_cases h : x.biased = 0
  · simp [h]
  · have power : ((x.biased : Int) - 1075) - 2 = (x.biased : Int) - 1077 := by omega
    simp only [h, if_false, power, Bool.and_eq_true, beq_iff_eq, decide_eq_true_eq]
    push_cast [Nat.pow_eq]
    rfl

theorem upper_eq (x : Double) : x.upper = upperOf x.biased x.fraction := by
  rw [upper, upperOf, significand, exponent]
  by_cases h : x.biased = 0
  · simp [h]
  · have power : ((x.biased : Int) - 1075) - 2 = (x.biased : Int) - 1077 := by omega
    simp only [h, if_false, power]
    push_cast [Nat.pow_eq]
    rfl

theorem lowerOf_lt_upperOf (biased fraction : Nat) :
    lowerOf biased fraction < upperOf biased fraction := by
  unfold lowerOf upperOf
  split
  · exact mul_lt_mul_of_pos_right (by linarith) (zpow_pos (by norm_num) _)
  · refine mul_lt_mul_of_pos_right ?_ (zpow_pos (by norm_num) _)
    split <;> linarith

/-- Neighbours with one exponent share an end. -/
theorem upperOf_eq_next (biased fraction : Nat) :
    upperOf biased fraction = lowerOf biased (fraction + 1) := by
  unfold lowerOf upperOf
  split
  · congr 1
    push_cast
    ring
  · simp only [Nat.add_eq_zero_iff, one_ne_zero, and_false, false_and, if_false]
    push_cast
    ring

/-- The last double of an exponent shares an end with the first one of the next exponent. -/
theorem upperOf_eq_carry (biased : Nat) :
    upperOf biased (2 ^ 52 - 1) = lowerOf (biased + 1) 0 := by
  unfold lowerOf upperOf
  by_cases h : biased = 0
  · subst h
    have unit : ((0 + 1 : Nat) : Int) - 1077 = -1076 := by omega
    rw [unit, if_pos rfl, if_neg (by omega), if_neg (by omega)]
    congr 1
    norm_num
  · have above : 1 < biased + 1 := by omega
    have double : (2 : ℚ) ^ (((biased + 1 : Nat) : Int) - 1077) =
        2 * (2 : ℚ) ^ ((biased : Int) - 1077) := by
      rw [← zpow_one_add₀ (by norm_num)]
      congr 1
      omega
    simp only [h, above, Nat.add_eq_zero_iff, one_ne_zero, and_false, and_true, if_false, if_true,
      double]
    push_cast
    ring

/-- The lower end of the interval of the double with given bits. -/
def lowerAt (m : Nat) : ℚ := lowerOf (m / 2 ^ 52) (m % 2 ^ 52)

/-- The intervals of neighbours share an end. -/
theorem upperOf_eq_lowerAt (m : Nat) : upperOf (m / 2 ^ 52) (m % 2 ^ 52) = lowerAt (m + 1) := by
  rw [lowerAt]
  by_cases carry : m % 2 ^ 52 = 2 ^ 52 - 1
  · have exponent : (m + 1) / 2 ^ 52 = m / 2 ^ 52 + 1 := by omega
    have fraction : (m + 1) % 2 ^ 52 = 0 := by omega
    rw [carry, exponent, fraction, upperOf_eq_carry]
  · have exponent : (m + 1) / 2 ^ 52 = m / 2 ^ 52 := by omega
    have fraction : (m + 1) % 2 ^ 52 = m % 2 ^ 52 + 1 := by omega
    rw [exponent, fraction, upperOf_eq_next]

theorem lowerAt_strictMono : StrictMono lowerAt :=
  strictMono_nat_of_lt_succ fun m => by
    rw [← upperOf_eq_lowerAt, lowerAt]
    exact lowerOf_lt_upperOf _ _

/-- A number that rounds to a double does not round to a larger one. -/
theorem not_rounds_of_lt {x y : Double} {r : ℚ} (h : x.magnitude < y.magnitude)
    (hx : x.Rounds r) : ¬ y.Rounds r := by
  intro hy
  have below : r ≤ lowerAt (x.magnitude + 1) := by
    rw [← upperOf_eq_lowerAt, ← biased_eq, ← fraction_eq, ← upper_eq]
    exact hx.mem.2
  have above : lowerAt y.magnitude ≤ r := by
    rw [lowerAt, ← biased_eq, ← fraction_eq, ← lower_eq]
    exact hy.mem.1
  -- the two are neighbours, and the number is the end that they share
  have next : y.magnitude = x.magnitude + 1 := by
    have order := lowerAt_strictMono.le_iff_le.1 (above.trans below)
    omega
  have odd : x.significand % 2 ≠ y.significand % 2 := by
    rw [significand_parity, significand_parity, next]
    omega
  have shared : x.upper = y.lower := by
    rw [upper_eq, lower_eq, biased_eq, fraction_eq, biased_eq, fraction_eq, upperOf_eq_lowerAt, next]
    rfl
  have closed := hy.mem.1
  unfold Rounds at hx hy
  split at hx
  · split at hy
    · omega
    · linarith [hx.2, hy.1]
  · linarith [hx.2]

/-- A number rounds to one absolute value only. -/
theorem rounds_unique {x y : Double} {r : ℚ} (hx : x.Rounds r) (hy : y.Rounds r) :
    x.magnitude = y.magnitude := by
  rcases Nat.lt_trichotomy x.magnitude y.magnitude with h | h | h
  · exact absurd hy (not_rounds_of_lt h hx)
  · exact h
  · exact absurd hx (not_rounds_of_lt h hy)

/-! ### The text of a double -/

theorem significand_eq_zero_iff (x : Double) : x.significand = 0 ↔ x.magnitude = 0 := by
  rw [significand, biased_eq, fraction_eq, Nat.pow_eq]
  split <;> omega

theorem lower_pos {x : Double} (hx : x.significand ≠ 0) : 0 < x.lower := by
  have least : (1 : ℚ) ≤ x.significand := by
    exact_mod_cast Nat.one_le_iff_ne_zero.2 hx
  refine mul_pos ?_ (zpow_pos (by norm_num) _)
  split <;> linarith

def unsignedChars (x : Double) : List Char :=
  if x.significand = 0 then ['0', '.', '0'] else x.shortest.chars

theorem textValue_zero : Decimal.textValue ['0', '.', '0'] = 0 := by
  have digit : ∀ c ∈ ['0'], c.isDigit = true := List.all_eq_true.1 rfl
  have read := Decimal.textValue_padded digit 0
  have zero : naturalValue ['0'] = 0 := rfl
  rw [List.replicate_zero, List.append_nil, zero, Nat.cast_zero, zero_mul] at read
  exact read

/-- The text of the absolute value of a double stands for a number that rounds to it. -/
theorem rounds_text {x : Double} (hx : x.significand ≠ 0) :
    x.Rounds (Decimal.textValue x.unsignedChars) := by
  rw [unsignedChars, if_neg hx, Decimal.textValue_chars]
  exact rounds_shortest hx

/-- The text of the absolute value of a double says which one it is. -/
theorem magnitude_of_text {x y : Double} (h : x.unsignedChars = y.unsignedChars) :
    x.magnitude = y.magnitude := by
  have zero {z : Double} (hz : z.significand = 0) : Decimal.textValue z.unsignedChars = 0 := by
    rw [unsignedChars, if_pos hz, textValue_zero]
  have positive {z : Double} (hz : z.significand ≠ 0) : 0 < Decimal.textValue z.unsignedChars :=
    (lower_pos hz).trans_le (rounds_text hz).mem.1
  by_cases hx : x.significand = 0
  · by_cases hy : y.significand = 0
    · rw [(significand_eq_zero_iff x).1 hx, (significand_eq_zero_iff y).1 hy]
    · have contra := positive hy
      rw [← h, zero hx] at contra
      exact absurd contra (lt_irrefl 0)
  · by_cases hy : y.significand = 0
    · have contra := positive hx
      rw [h, zero hy] at contra
      exact absurd contra (lt_irrefl 0)
    · exact rounds_unique (rounds_text hx) (h ▸ rounds_text hy)

/-- The text of the absolute value of a double starts with a digit and has a point or a power of
ten. -/
theorem numeric_unsignedChars (x : Double) :
    Decimal.Numeric x.unsignedChars ∧ ∃ c ∈ x.unsignedChars, c = '.' ∨ c = 'e' := by
  rw [unsignedChars]
  split
  · exact ⟨⟨List.all_eq_true.1 rfl, '0', rfl, rfl⟩, '.', by simp, .inl rfl⟩
  · exact Decimal.numeric_chars x.shortest

theorem chars_eq (x : Double) :
    x.chars = (if x.isNegative then ['-'] else []) ++ x.unsignedChars := rfl

/-- Two doubles with one text are one double. -/
theorem chars_injective {x y : Double} (h : x.chars = y.chars) : x = y := by
  obtain ⟨⟨-, c, hc, digit⟩, -⟩ := numeric_unsignedChars x
  obtain ⟨⟨-, c', hc', digit'⟩, -⟩ := numeric_unsignedChars y
  rw [chars_eq, chars_eq] at h
  -- a text that starts with a digit has no sign
  have sign : x.isNegative = y.isNegative := by
    have heads := congrArg List.head? h
    cases hx : x.isNegative <;> cases hy : y.isNegative <;>
      simp only [hx, hy, if_true, List.singleton_append, List.nil_append, List.head?_cons, hc, hc',
        Bool.false_eq_true, if_false, Option.some.injEq] at heads
    · rfl
    · rw [heads] at digit
      cases digit
    · rw [← heads] at digit'
      cases digit'
    · rfl
  rw [sign] at h
  exact eq_of_magnitude sign (magnitude_of_text (List.append_cancel_left h))

end Double

end DocSchema
