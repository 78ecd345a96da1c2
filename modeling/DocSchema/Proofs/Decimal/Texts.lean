import Mathlib.Algebra.Order.Field.Rat
import Mathlib.Data.List.TakeWhile
import Mathlib.Tactic.Ring
import DocSchema.Json.Printer

/-!
# What the text of a number says

The text of a decimal says which number it stands for, in every way in which it can be written
(`textValue_chars`). So two decimals with one text stand for one number, though their digits and
exponents may be different.
-/

namespace DocSchema

/-! ### Digits -/

theorem isDigit_digit : ∀ d, d < 10 → (Char.ofNat (48 + d)).isDigit = true := by decide

theorem isDigit_of_mem_natChars (n : Nat) : ∀ c ∈ natChars n, c.isDigit = true := by
  rw [natChars]
  split
  · next h =>
    intro c hc
    rw [List.mem_singleton.1 hc]
    exact isDigit_digit n h
  · intro c hc
    rcases List.mem_append.1 hc with hc | hc
    · exact isDigit_of_mem_natChars (n / 10) c hc
    · rw [List.mem_singleton.1 hc]
      exact isDigit_digit (n % 10) (by omega)
termination_by n
decreasing_by omega

theorem natChars_ne_nil (n : Nat) : natChars n ≠ [] := by
  rw [natChars]
  split <;> simp

theorem natChars_injective {n m : Nat} (h : natChars n = natChars m) : n = m := by
  rw [← naturalValue_natChars n, h, naturalValue_natChars]

theorem naturalValue_append (a b : List Char) :
    naturalValue (a ++ b) = naturalValue a * 10 ^ b.length + naturalValue b := by
  have shifted (n : Nat) : b.foldl (fun n c => n * 10 + digitValue c) n =
      n * 10 ^ b.length + naturalValue b := by
    induction b generalizing n with
    | nil => simp [naturalValue]
    | cons c cs ih =>
      unfold naturalValue at ih ⊢
      rw [List.foldl_cons, List.foldl_cons, ih, ih (0 * 10 + digitValue c), List.length_cons]
      ring
  rw [naturalValue, List.foldl_append, shifted]
  rfl

theorem naturalValue_zeros (n : Nat) : naturalValue (List.replicate n '0') = 0 := by
  induction n with
  | zero => rfl
  | succ n ih =>
    rw [List.replicate_succ', naturalValue_append, ih]
    rfl

namespace Decimal

def value (d : Decimal) : ℚ := d.digits * (10 : ℚ) ^ d.exponent

/-! ### Reading a text -/

/-- The power of ten after the letter `e`. -/
def textPower : List Char → Int
  | _ :: '-' :: ds => -(naturalValue ds)
  | _ :: _ :: ds => naturalValue ds
  | _ => 0

/-- The number that a text stands for: digits with a point, and a power of ten after them. -/
def textValue (cs : List Char) : ℚ :=
  let mantissa := cs.takeWhile (· ≠ 'e')
  let whole := mantissa.takeWhile (· ≠ '.')
  let fraction := (mantissa.dropWhile (· ≠ '.')).drop 1
  naturalValue (whole ++ fraction) * (10 : ℚ) ^ (textPower (cs.dropWhile (· ≠ 'e')) - fraction.length)

theorem ne_of_isDigit {c other : Char} (h : c.isDigit = true) (ho : other.isDigit = false) :
    c ≠ other := by
  rintro rfl
  rw [h] at ho
  cases ho

section Parts

variable {whole fraction tail : List Char}

/-- What precedes the letter `e` is split off. -/
theorem textValue_tail {mantissa : List Char} (hm : 'e' ∉ mantissa)
    (ht : tail.takeWhile (· ≠ 'e') = []) : textValue (mantissa ++ tail) =
      naturalValue (mantissa.takeWhile (· ≠ '.') ++ (mantissa.dropWhile (· ≠ '.')).drop 1) *
        (10 : ℚ) ^ (textPower tail - ((mantissa.dropWhile (· ≠ '.')).drop 1).length) := by
  have noE : ∀ c ∈ mantissa, decide (c ≠ 'e') = true := fun c hc => by
    have : c ≠ 'e' := by
      rintro rfl
      exact hm hc
    simpa using this
  have rest : tail.dropWhile (· ≠ 'e') = tail := by
    have split := List.takeWhile_append_dropWhile (p := (· ≠ 'e')) (l := tail)
    rwa [ht, List.nil_append] at split
  rw [textValue, List.takeWhile_append_of_pos noE, ht, List.append_nil,
    List.dropWhile_append_of_pos noE, rest]

/-- Digits with a point among them. -/
theorem textValue_point (whole fraction tail : List Char) (hw : ∀ c ∈ whole, c.isDigit = true)
    (hf : ∀ c ∈ fraction, c.isDigit = true) (ht : tail.takeWhile (· ≠ 'e') = []) :
    textValue (whole ++ '.' :: fraction ++ tail) =
      naturalValue (whole ++ fraction) * (10 : ℚ) ^ (textPower tail - fraction.length) := by
  have noE : 'e' ∉ whole ++ '.' :: fraction := by
    simp only [List.mem_append, List.mem_cons, not_or]
    exact ⟨fun h => ne_of_isDigit (hw _ h) rfl rfl, by decide, fun h => ne_of_isDigit (hf _ h) rfl rfl⟩
  have noPoint : ∀ c ∈ whole, decide (c ≠ '.') = true := fun c hc => by
    simpa using ne_of_isDigit (hw c hc) rfl
  rw [textValue_tail noE ht, List.takeWhile_append_of_pos noPoint,
    List.dropWhile_append_of_pos noPoint]
  simp

/-- Digits without a point. -/
theorem textValue_whole (hw : ∀ c ∈ whole, c.isDigit = true)
    (ht : tail.takeWhile (· ≠ 'e') = []) :
    textValue (whole ++ tail) = naturalValue whole * (10 : ℚ) ^ textPower tail := by
  have noE : 'e' ∉ whole := fun h => ne_of_isDigit (hw _ h) rfl rfl
  have noPoint : ∀ c ∈ whole, decide (c ≠ '.') = true := fun c hc => by
    simpa using ne_of_isDigit (hw c hc) rfl
  have all : whole.takeWhile (· ≠ '.') = whole := List.takeWhile_eq_self_iff.2 noPoint
  have none : whole.dropWhile (· ≠ '.') = [] := List.dropWhile_eq_nil_iff.2 noPoint
  rw [textValue_tail noE ht, all, none]
  simp

end Parts

theorem pow_mul_zpow_ten (n : Nat) (z : Int) : (10 : ℚ) ^ n * (10 : ℚ) ^ z = (10 : ℚ) ^ (n + z) := by
  rw [zpow_add₀ (by norm_num), zpow_natCast]

/-- The power of ten is read with its sign. -/
theorem textPower_signed (power : Int) :
    textPower ('e' :: (if 0 ≤ power then '+' else '-') :: natChars power.natAbs) = power := by
  split
  · next h =>
    show (naturalValue (natChars power.natAbs) : Int) = power
    rw [naturalValue_natChars]
    omega
  · next h =>
    show -(naturalValue (natChars power.natAbs) : Int) = power
    rw [naturalValue_natChars]
    omega

theorem isDigit_of_mem_zeros {n : Nat} : ∀ c ∈ List.replicate n '0', c.isDigit = true := by
  intro c hc
  rw [List.eq_of_mem_replicate hc]
  rfl

section Forms

variable {ds : List Char} (digits : ∀ c ∈ ds, c.isDigit = true)

include digits

/-- Zeros fill the places before the point. -/
theorem textValue_padded (n : Nat) : textValue (ds ++ List.replicate n '0' ++ ['.', '0']) =
    naturalValue ds * (10 : ℚ) ^ (n : Int) := by
  have read := textValue_point (ds ++ List.replicate n '0') ['0'] []
    (List.forall_mem_append.2 ⟨digits, isDigit_of_mem_zeros⟩) (List.all_eq_true.1 rfl) rfl
  rw [List.append_nil] at read
  rw [read, List.append_assoc, ← List.replicate_succ', naturalValue_append, naturalValue_zeros,
    List.length_replicate, Nat.add_zero]
  push_cast
  rw [mul_assoc, pow_mul_zpow_ten]
  congr 2
  simp [textPower]

/-- The point stands among the digits. -/
theorem textValue_among (n : Nat) : textValue (ds.take n ++ '.' :: ds.drop n) =
    naturalValue ds * (10 : ℚ) ^ (-((ds.length - n : Nat) : Int)) := by
  have read := textValue_point (ds.take n) (ds.drop n) []
    (fun c hc => digits c (List.mem_of_mem_take hc))
    (fun c hc => digits c (List.mem_of_mem_drop hc)) rfl
  rw [List.append_nil] at read
  rw [read, List.take_append_drop, List.length_drop]
  congr 2
  simp [textPower]

/-- Zeros fill the places between the point and the digits. -/
theorem textValue_small (n : Nat) : textValue (['0', '.'] ++ List.replicate n '0' ++ ds) =
    naturalValue ds * (10 : ℚ) ^ (-((n + ds.length : Nat) : Int)) := by
  have read := textValue_point ['0'] (List.replicate n '0' ++ ds) [] (List.all_eq_true.1 rfl)
    (List.forall_mem_append.2 ⟨isDigit_of_mem_zeros, digits⟩) rfl
  rw [List.append_nil] at read
  have shape : ['0', '.'] ++ List.replicate n '0' ++ ds =
      ['0'] ++ '.' :: (List.replicate n '0' ++ ds) := rfl
  have zero : naturalValue ['0'] = 0 := rfl
  rw [shape, read, naturalValue_append, naturalValue_append, naturalValue_zeros, zero,
    List.length_append, List.length_replicate, Nat.zero_mul, Nat.zero_mul, Nat.zero_add,
    Nat.zero_add]
  congr 2
  simp [textPower]

/-- One digit stands before the point, and a power of ten follows. -/
theorem textValue_scientific (some_digit : ds ≠ []) (power : Int) :
    textValue (ds.take 1 ++ (if ds.length = 1 then [] else '.' :: ds.drop 1) ++
        'e' :: (if 0 ≤ power then '+' else '-') :: natChars power.natAbs) =
      naturalValue ds * (10 : ℚ) ^ (power + 1 - ds.length) := by
  obtain ⟨c, cs, rfl⟩ := List.exists_cons_of_ne_nil some_digit
  have first : ∀ x ∈ [c], x.isDigit = true := fun x hx => digits x (by simp_all)
  have others : ∀ x ∈ cs, x.isDigit = true := fun x hx => digits x (by simp [hx])
  have signed := textPower_signed power
  generalize htail : 'e' :: (if 0 ≤ power then '+' else '-') :: natChars power.natAbs = tail
    at signed ⊢
  have ends : tail.takeWhile (· ≠ 'e') = [] := by
    rw [← htail]
    rfl
  split
  · next single =>
    have nothing : cs = [] := by simpa using single
    subst nothing
    rw [List.append_nil, List.take_one, List.head?_cons, Option.toList_some,
      textValue_whole first ends, signed]
    simp
  · have read := textValue_point [c] cs tail first others ends
    have shape : List.take 1 (c :: cs) ++ '.' :: List.drop 1 (c :: cs) = [c] ++ '.' :: cs := rfl
    rw [shape, read, List.singleton_append, signed]
    congr 2
    simp only [List.length_cons]
    omega

end Forms

/-- The text of a decimal stands for the decimal. -/
theorem textValue_chars (d : Decimal) : textValue d.chars = d.value := by
  have digits := isDigit_of_mem_natChars d.digits
  have number : naturalValue (natChars d.digits) = d.digits := naturalValue_natChars d.digits
  have some_digit : natChars d.digits ≠ [] := natChars_ne_nil d.digits
  rw [chars, value]
  generalize natChars d.digits = ds at *
  dsimp only
  split
  · split
    · rw [textValue_padded digits, number]
      congr 2
      omega
    · split
      · rw [textValue_among digits, number]
        congr 2
        omega
      · rw [textValue_small digits, number]
        congr 2
        omega
  · rw [textValue_scientific digits some_digit, number]
    congr 2
    omega

/-! ### The characters of a text -/

def isNumberChar (c : Char) : Bool :=
  c.isDigit || c = '-' || c = '+' || c = '.' || c = 'e'

/-- A text of the characters of numbers that starts with a digit. -/
structure Numeric (cs : List Char) : Prop where
  all : ∀ c ∈ cs, isNumberChar c = true
  first : ∃ c, cs.head? = some c ∧ c.isDigit = true

theorem isNumberChar_of_isDigit {c : Char} (h : c.isDigit = true) : isNumberChar c = true := by
  simp [isNumberChar, h]

theorem numeric_natChars (n : Nat) : Numeric (natChars n) where
  all c hc := isNumberChar_of_isDigit (isDigit_of_mem_natChars n c hc)
  first := by
    obtain ⟨c, cs, hc⟩ := List.exists_cons_of_ne_nil (natChars_ne_nil n)
    rw [hc]
    exact ⟨c, rfl, isDigit_of_mem_natChars n c (by rw [hc]; exact List.mem_cons_self)⟩

theorem Numeric.append {cs cs' : List Char} (h : Numeric cs)
    (h' : ∀ c ∈ cs', isNumberChar c = true) : Numeric (cs ++ cs') where
  all := List.forall_mem_append.2 ⟨h.all, h'⟩
  first := by
    obtain ⟨c, hc, digit⟩ := h.first
    exact ⟨c, by rw [List.head?_append, hc]; rfl, digit⟩

theorem Numeric.take {cs : List Char} (h : Numeric cs) {n : Nat} (hn : 0 < n) :
    Numeric (cs.take n) where
  all c hc := h.all c (List.mem_of_mem_take hc)
  first := by
    obtain ⟨c, hc, digit⟩ := h.first
    exact ⟨c, by rw [List.head?_take, if_neg (by omega), hc], digit⟩

/-- Every text of a decimal starts with a digit and has a point or a power of ten. -/
theorem numeric_chars (d : Decimal) :
    Numeric d.chars ∧ ∃ c ∈ d.chars, c = '.' ∨ c = 'e' := by
  have digits := numeric_natChars d.digits
  have zeros (n : Nat) : ∀ c ∈ List.replicate n '0', isNumberChar c = true := fun c hc =>
    isNumberChar_of_isDigit (isDigit_of_mem_zeros c hc)
  rw [chars]
  generalize natChars d.digits = ds at *
  have rest (n : Nat) : ∀ c ∈ '.' :: ds.drop n, isNumberChar c = true :=
    List.forall_mem_cons.2 ⟨rfl, fun c hc => digits.all c (List.mem_of_mem_drop hc)⟩
  dsimp only
  split
  · split
    · exact ⟨(digits.append (zeros _)).append (List.all_eq_true.1 rfl), '.', by simp, .inl rfl⟩
    · split
      · next inside =>
        exact ⟨(digits.take (by omega)).append (rest _), '.', by simp, .inl rfl⟩
      · have start : Numeric ['0', '.'] := ⟨List.all_eq_true.1 rfl, '0', rfl, rfl⟩
        exact ⟨(start.append (zeros _)).append digits.all, '.', by simp, .inl rfl⟩
  · generalize (ds.length : Int) + d.exponent - 1 = power
    have tail : ∀ c ∈ 'e' :: (if 0 ≤ power then '+' else '-') :: natChars power.natAbs,
        isNumberChar c = true := by
      refine List.forall_mem_cons.2 ⟨rfl, List.forall_mem_cons.2 ⟨?_, ?_⟩⟩
      · split <;> rfl
      · exact (numeric_natChars power.natAbs).all
    have fraction : ∀ c ∈ (if ds.length = 1 then [] else '.' :: ds.drop 1),
        isNumberChar c = true := by
      split
      · exact fun c hc => by cases hc
      · exact rest 1
    exact ⟨((digits.take (by decide)).append fraction).append tail, 'e', by simp, .inr rfl⟩

end Decimal

end DocSchema
