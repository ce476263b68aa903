import Mathlib.Data.Nat.Cast.Field
import PerpRollout.Proofs.Decimal.Rounding

/-!
# Quotients

`Decimal.divide` looks for the place at which a quotient has as many digits before the point
as are wanted (`Scales`); there is one such place (`Scales.unique`) and it is found
(`scales_shift`). What is taken there is the rounding of the quotient (`isRounding_divide`).
The place depends on the quotient alone, so a common factor changes nothing, not even the
zeros at the end of an exact quotient (`divide_mul_left`).
-/

namespace PerpRollout.Decimal

variable {precision : ℕ} {q : ℚ} {s s' : ℤ} {a b : Decimal}

/-! ## The place of a quotient -/

/-- Shifted by so many places, the number has as many digits before the point as wanted. -/
structure Scales (precision : ℕ) (q : ℚ) (s : ℤ) : Prop where
  low : 10 ^ (precision - 1) ≤ q * 10 ^ s
  high : q * 10 ^ s < 10 ^ precision

theorem Scales.pos (h : Scales precision q s) : 0 < q := by
  have hpositive : (0 : ℚ) < q * 10 ^ s := lt_of_lt_of_le (by positivity) h.low
  exact pos_of_mul_pos_left hpositive (by positivity)

theorem Scales.le (hpos : 0 < precision) (h : Scales precision q s)
    (h' : Scales precision q s') : s' ≤ s := by
  by_contra hlt
  have hq := h.pos
  have hstep : q * 10 ^ s * 10 ≤ q * 10 ^ s' := by
    rw [mul_assoc, ← zpow_add_one₀ (by norm_num)]
    exact mul_le_mul_of_nonneg_left (zpow_le_zpow_right₀ (by norm_num) (by omega)) hq.le
  have hpower : (10 : ℚ) ^ (precision - 1) * 10 = 10 ^ precision := by
    rw [← pow_succ, Nat.sub_add_cancel hpos]
  have := h.low
  have := h'.high
  linarith

theorem Scales.unique (hpos : 0 < precision) (h : Scales precision q s)
    (h' : Scales precision q s') : s = s' :=
  le_antisymm (h'.le hpos h) (h.le hpos h')

/-- The number shifted by so many places, as the numerator or, shifted the other way, the
denominator of a quotient. -/
def shifted (n : ℕ) (s : ℤ) : ℕ :=
  n * 10 ^ s.toNat

theorem shifted_pos {n : ℕ} (hn : n ≠ 0) (s : ℤ) : 0 < shifted n s :=
  Nat.mul_pos (Nat.pos_of_ne_zero hn) (by positivity)

theorem shifted_div_shifted (n m : ℕ) (s : ℤ) :
    (shifted n s : ℚ) / shifted m (-s) = n / m * 10 ^ s := by
  rw [ten_zpow_eq_div s, shifted, shifted, Nat.cast_mul, Nat.cast_mul, div_mul_div_comm]

/-- The shift that `divide` takes, by the lengths of the two numbers. -/
def shift (precision n m : ℕ) : ℤ :=
  let most : ℤ := precision + Numeral.length m - Numeral.length n
  if shifted m (-most) * 10 ^ precision ≤ shifted n most then most - 1 else most

/-- By the lengths of two numbers their quotient has as many digits as wanted, or one more. -/
theorem le_div_mul_zpow {n m : ℕ} (hpos : 0 < precision) (hn : n ≠ 0) (hm : m ≠ 0) :
    (10 : ℚ) ^ (precision - 1) ≤
      n / m * 10 ^ ((precision : ℤ) + Numeral.length m - Numeral.length n) := by
  have hm' : (0 : ℚ) < m := by exact_mod_cast Nat.pos_of_ne_zero hm
  have hnumerator : (10 : ℚ) ^ (Numeral.length n - 1) ≤ n := by
    exact_mod_cast Numeral.pow_length_le hn
  have hdenominator : (m : ℚ) ≤ 10 ^ Numeral.length m := by
    exact_mod_cast (Numeral.lt_pow_length m).le
  have hexponent : ((precision - 1 : ℕ) : ℤ) + Numeral.length m =
      ((Numeral.length n - 1 : ℕ) : ℤ) + (precision + Numeral.length m - Numeral.length n) := by
    have := Numeral.length_pos n
    omega
  rw [div_mul_eq_mul_div, le_div_iff₀ hm']
  calc (10 : ℚ) ^ (precision - 1) * m
      ≤ 10 ^ (precision - 1) * 10 ^ Numeral.length m :=
        mul_le_mul_of_nonneg_left hdenominator (by positivity)
    _ = 10 ^ (Numeral.length n - 1) *
          10 ^ ((precision : ℤ) + Numeral.length m - Numeral.length n) := by
        rw [← zpow_natCast, ← zpow_natCast, ← zpow_natCast, ← zpow_add₀ (by norm_num),
          ← zpow_add₀ (by norm_num), hexponent]
    _ ≤ n * 10 ^ ((precision : ℤ) + Numeral.length m - Numeral.length n) :=
        mul_le_mul_of_nonneg_right hnumerator (by positivity)

theorem div_mul_zpow_lt {n m : ℕ} (hm : m ≠ 0) :
    (n / m : ℚ) * 10 ^ ((precision : ℤ) + Numeral.length m - Numeral.length n) <
      10 ^ precision * 10 := by
  have hm' : (0 : ℚ) < m := by exact_mod_cast Nat.pos_of_ne_zero hm
  have hnumerator : (n : ℚ) < 10 ^ Numeral.length n := by
    exact_mod_cast Numeral.lt_pow_length n
  have hdenominator : (10 : ℚ) ^ (Numeral.length m - 1) ≤ m := by
    exact_mod_cast Numeral.pow_length_le hm
  have hexponent : (Numeral.length n : ℤ) + (precision + Numeral.length m - Numeral.length n) =
      precision + 1 + ((Numeral.length m - 1 : ℕ) : ℤ) := by
    have := Numeral.length_pos m
    omega
  rw [div_mul_eq_mul_div, div_lt_iff₀ hm']
  calc (n : ℚ) * 10 ^ ((precision : ℤ) + Numeral.length m - Numeral.length n)
      < 10 ^ Numeral.length n * 10 ^ ((precision : ℤ) + Numeral.length m - Numeral.length n) :=
        mul_lt_mul_of_pos_right hnumerator (by positivity)
    _ = 10 ^ precision * 10 * 10 ^ (Numeral.length m - 1) := by
        rw [← zpow_natCast, ← zpow_natCast, ← zpow_natCast, ← zpow_add₀ (by norm_num), hexponent,
          zpow_add₀ (by norm_num), zpow_add_one₀ (by norm_num)]
    _ ≤ 10 ^ precision * 10 * m := mul_le_mul_of_nonneg_left hdenominator (by positivity)

theorem scales_shift {n m : ℕ} (hpos : 0 < precision) (hn : n ≠ 0) (hm : m ≠ 0) :
    Scales precision (n / m) (shift precision n m) := by
  have hpower : (10 : ℚ) ^ (precision - 1) * 10 = 10 ^ precision := by
    rw [← pow_succ, Nat.sub_add_cancel hpos]
  have hlow := le_div_mul_zpow hpos hn hm
  have hhigh : (n / m : ℚ) * 10 ^ ((precision : ℤ) + Numeral.length m - Numeral.length n) <
      10 ^ precision * 10 := div_mul_zpow_lt hm
  unfold shift
  dsimp only
  generalize (precision : ℤ) + Numeral.length m - Numeral.length n = most at hlow hhigh ⊢
  have hreached : shifted m (-most) * 10 ^ precision ≤ shifted n most ↔
      (10 : ℚ) ^ precision ≤ n / m * 10 ^ most := by
    have hdenominator : (0 : ℚ) < shifted m (-most) := by exact_mod_cast shifted_pos hm _
    rw [← shifted_div_shifted, le_div_iff₀ hdenominator, mul_comm]
    exact_mod_cast Iff.rfl
  split
  next h =>
    rw [hreached] at h
    have hone : (n / m : ℚ) * 10 ^ (most - 1) * 10 = n / m * 10 ^ most := by
      rw [mul_assoc, ← zpow_add_one₀ (by norm_num), sub_add_cancel]
    constructor <;> linarith
  next h =>
    rw [hreached, not_le] at h
    exact ⟨hlow, h⟩

/-! ## The digits of a quotient -/

theorem toRat_stripZeros (most : ℕ) (d : Decimal) : (stripZeros most d).toRat = d.toRat := by
  induction most generalizing d with
  | zero => rfl
  | succ most ih =>
      unfold stripZeros
      split
      next h =>
        have hten : d.coefficient / 10 * 10 ^ 1 = d.coefficient := by
          rw [Nat.pow_one]
          exact Nat.div_mul_cancel (Nat.dvd_of_mod_eq_zero h)
        rw [ih, ← Nat.cast_one, ← toRat_mul_pow, hten]
      next => rfl

theorem coefficient_stripZeros_le (most : ℕ) (d : Decimal) :
    (stripZeros most d).coefficient ≤ d.coefficient := by
  induction most generalizing d with
  | zero => exact le_rfl
  | succ most ih =>
      unfold stripZeros
      split
      next => exact (ih _).trans (Nat.div_le_self _ _)
      next => exact le_rfl

/-- What is taken of a quotient at a place: all of it if nothing is left, else its rounding. -/
def digitsAt (precision n m : ℕ) (s ideal : ℤ) : Decimal :=
  if shifted n s % shifted m (-s) = 0 then
    stripZeros s.toNat ⟨shifted n s / shifted m (-s), ideal - s⟩
  else carry precision ⟨roundHalfEven (shifted n s) (shifted m (-s)), ideal - s⟩

theorem divide_eq_digitsAt (ha : a.coefficient ≠ 0) :
    divide precision a b =
      digitsAt precision a.coefficient b.coefficient
        (shift precision a.coefficient b.coefficient) (a.exponent - b.exponent) := by
  rw [divide, if_neg ha]
  rfl

theorem divide_of_scales (hpos : 0 < precision)
    (h : Scales precision (a.coefficient / b.coefficient) s) :
    divide precision a b =
      digitsAt precision a.coefficient b.coefficient s (a.exponent - b.exponent) := by
  have hq := h.pos
  have ha : a.coefficient ≠ 0 := by
    intro hzero
    simp [hzero] at hq
  have hb : b.coefficient ≠ 0 := by
    intro hzero
    simp [hzero] at hq
  rw [divide_eq_digitsAt ha, (scales_shift hpos ha hb).unique hpos h]

theorem isRounding_digitsAt {n m : ℕ} (hprecision : 1 < precision) (hm : m ≠ 0)
    (h : Scales precision (n / m) s) (ideal : ℤ) :
    IsRounding precision (n / m * 10 ^ ideal) (digitsAt precision n m s ideal) := by
  have hpos : 0 < precision := by omega
  have hdenominator := shifted_pos hm (-s)
  have hdenominator' : (0 : ℚ) < shifted m (-s) := by exact_mod_cast hdenominator
  have hlow := h.low
  have hhigh := h.high
  rw [← shifted_div_shifted, le_div_iff₀ hdenominator', mul_comm] at hlow
  rw [← shifted_div_shifted, div_lt_iff₀ hdenominator', mul_comm] at hhigh
  have hlow : shifted m (-s) * 10 ^ (precision - 1) ≤ shifted n s := by exact_mod_cast hlow
  have hhigh : shifted n s < shifted m (-s) * 10 ^ precision := by exact_mod_cast hhigh
  have hplace : (n / m * 10 ^ ideal : ℚ) =
      (shifted n s / shifted m (-s) : ℚ) * 10 ^ (ideal - s) := by
    rw [shifted_div_shifted, mul_assoc, ← zpow_add₀ (by norm_num), add_sub_cancel]
  rw [hplace, digitsAt]
  split
  next hexact =>
    have hquotient : ((shifted n s / shifted m (-s) : ℕ) : ℚ) =
        (shifted n s : ℚ) / shifted m (-s) :=
      Nat.cast_div (Nat.dvd_of_mod_eq_zero hexact) hdenominator'.ne'
    have hsmall : shifted n s / shifted m (-s) < 10 ^ precision := Nat.div_lt_of_lt_mul hhigh
    rw [← hquotient]
    have hrounding := IsRounding.of_fits ((coefficient_stripZeros_le s.toNat
      ⟨shifted n s / shifted m (-s), ideal - s⟩).trans_lt hsmall)
    rw [toRat_stripZeros] at hrounding
    exact hrounding
  next => exact isRounding_carry hprecision hdenominator hlow hhigh _

/-- A quotient is taken to its rounding. -/
theorem isRounding_divide (hprecision : 1 < precision) (a : Decimal) (hb : b.coefficient ≠ 0) :
    IsRounding precision (a.toRat / b.toRat) (divide precision a b) := by
  have hvalue : a.toRat / b.toRat =
      (a.coefficient / b.coefficient : ℚ) * 10 ^ (a.exponent - b.exponent) := by
    rw [toRat, toRat, zpow_sub₀ (by norm_num), div_mul_div_comm]
  by_cases ha : a.coefficient = 0
  · have hzero : a.toRat / b.toRat = toRat ⟨0, a.exponent - b.exponent⟩ := by
      rw [hvalue, ha, toRat]
      simp
    rw [hzero, divide, if_pos ha]
    exact .of_fits (by positivity)
  · rw [hvalue, divide_eq_digitsAt ha]
    exact isRounding_digitsAt hprecision hb (scales_shift (by omega) ha hb) _

/-! ## The exponent of a quotient -/

theorem le_exponent_stripZeros (most : ℕ) (d : Decimal) :
    d.exponent ≤ (stripZeros most d).exponent := by
  induction most generalizing d with
  | zero => exact le_rfl
  | succ most ih =>
      unfold stripZeros
      split
      next => exact (Int.le_add_one le_rfl).trans (ih _)
      next => exact le_rfl

theorem le_exponent_carry (d : Decimal) : d.exponent ≤ (carry precision d).exponent := by
  unfold carry
  split
  next => exact Int.le_add_one le_rfl
  next => exact le_rfl

/-- A quotient has no more places than its divisor and its digits ask for. -/
theorem le_exponent_divide (a b : Decimal) :
    a.exponent - b.exponent - (precision + Numeral.length b.coefficient) ≤
      (divide precision a b).exponent := by
  by_cases ha : a.coefficient = 0
  · rw [divide, if_pos ha]
    dsimp only
    omega
  · have hshift : shift precision a.coefficient b.coefficient ≤
        precision + Numeral.length b.coefficient := by
      unfold shift
      dsimp only
      split <;> omega
    rw [divide_eq_digitsAt ha]
    generalize shift precision a.coefficient b.coefficient = s at hshift
    have hplace : a.exponent - b.exponent - s ≤ (digitsAt precision a.coefficient b.coefficient s
        (a.exponent - b.exponent)).exponent := by
      unfold digitsAt
      split
      next => exact le_exponent_stripZeros _ _
      next => exact le_exponent_carry _
    omega

/-! ## Common factors -/

theorem digitsAt_mul_left {k : ℕ} (hk : k ≠ 0) (n m : ℕ) (s ideal : ℤ) :
    digitsAt precision (k * n) (k * m) s ideal = digitsAt precision n m s ideal := by
  have hshifted (n : ℕ) (s : ℤ) : shifted (k * n) s = k * shifted n s := Nat.mul_assoc k n _
  have hmod : k * shifted n s % (k * shifted m (-s)) = k * (shifted n s % shifted m (-s)) :=
    Nat.mul_mod_mul_left k _ _
  have hdiv : k * shifted n s / (k * shifted m (-s)) = shifted n s / shifted m (-s) :=
    Nat.mul_div_mul_left _ _ (Nat.pos_of_ne_zero hk)
  simp only [digitsAt, hshifted, hmod, hdiv, roundHalfEven_mul_left hk, mul_eq_zero, hk, false_or]

/-- A factor that two numbers share does not show in their quotient. -/
theorem divide_mul_left {k n m : ℕ} (hpos : 0 < precision) (hk : k ≠ 0) (hm : m ≠ 0) (e f : ℤ) :
    divide precision ⟨k * n, e⟩ ⟨k * m, f⟩ = divide precision ⟨n, e⟩ ⟨m, f⟩ := by
  by_cases hn : n = 0
  · simp [divide, hn]
  · have hscales := scales_shift hpos hn hm
    have hquotient : ((k * n : ℕ) / (k * m : ℕ) : ℚ) = n / m := by
      rw [Nat.cast_mul, Nat.cast_mul, mul_div_mul_left _ _ (by exact_mod_cast hk)]
    rw [divide_of_scales (a := ⟨n, e⟩) (b := ⟨m, f⟩) hpos hscales,
      divide_of_scales (a := ⟨k * n, e⟩) (b := ⟨k * m, f⟩) hpos (hquotient ▸ hscales),
      digitsAt_mul_left hk]

end PerpRollout.Decimal
