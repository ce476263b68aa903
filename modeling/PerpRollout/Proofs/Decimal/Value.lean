import Mathlib.Algebra.Order.Field.Power
import Mathlib.Algebra.Order.Floor.Semifield
import Mathlib.Data.Rat.Floor
import Mathlib.Tactic.FieldSimp
import Mathlib.Tactic.Linarith
import Mathlib.Tactic.Positivity
import PerpRollout.Decimal.Basic
import PerpRollout.Proofs.Numeral

/-!
# The number that a decimal is

`Decimal.toRat` is the number itself. Its size is read off from the power of ten of its
leading digit (`toRat_lt_zpow_iff`), its integer part is what `Decimal.floor` gives
(`floor_eq`), and a power of ten can be moved between the coefficient and the exponent
(`toRat_mul_pow`).
-/

namespace PerpRollout

namespace Decimal

variable {d : Decimal}

/-- The number that a decimal is. -/
def toRat (d : Decimal) : ℚ :=
  d.coefficient * 10 ^ d.exponent

theorem toRat_ofNat (n : ℕ) : (ofNat n).toRat = n := by
  simp [toRat, ofNat]

theorem toRat_nonneg (d : Decimal) : 0 ≤ d.toRat := by
  unfold toRat
  positivity

theorem toRat_eq_zero_iff : d.toRat = 0 ↔ d.coefficient = 0 := by
  have h10 : (10 : ℚ) ^ d.exponent ≠ 0 := by positivity
  simp [toRat, h10]

/-- A power of ten in the coefficient counts for the exponent. -/
theorem toRat_mul_pow (c k : ℕ) (e : ℤ) :
    toRat ⟨c * 10 ^ k, e⟩ = toRat ⟨c, e + k⟩ := by
  simp only [toRat, Nat.cast_mul, Nat.cast_pow, Nat.cast_ofNat]
  rw [zpow_add₀ (by norm_num), zpow_natCast]
  ring

/-- A decimal at another scale. -/
theorem toRat_mul_zpow (c : ℕ) (e f : ℤ) : toRat ⟨c, e⟩ * 10 ^ f = toRat ⟨c, e + f⟩ := by
  simp only [toRat]
  rw [zpow_add₀ (by norm_num), mul_assoc]

/-- A power of ten as a fraction of natural numbers, one of which is one. -/
theorem ten_zpow_eq_div (e : ℤ) :
    (10 : ℚ) ^ e = ((10 ^ e.toNat : ℕ) : ℚ) / ((10 ^ (-e).toNat : ℕ) : ℚ) := by
  rcases le_total 0 e with h | h
  · obtain ⟨k, rfl⟩ := Int.eq_ofNat_of_zero_le h
    simp
  · obtain ⟨k, hk⟩ := Int.eq_ofNat_of_zero_le (Int.neg_nonneg.mpr h)
    obtain rfl : e = -(k : ℤ) := by omega
    simp

theorem ten_zpow_of_nonneg {e : ℤ} (h : 0 ≤ e) : (10 : ℚ) ^ e = ((10 ^ e.toNat : ℕ) : ℚ) := by
  rw [ten_zpow_eq_div, Int.toNat_of_nonpos (Int.neg_nonpos_of_nonneg h), Nat.pow_zero,
    Nat.cast_one, div_one]

theorem toRat_eq_div (d : Decimal) :
    d.toRat = ((d.coefficient * 10 ^ d.exponent.toNat : ℕ) : ℚ) /
      ((10 ^ (-d.exponent).toNat : ℕ) : ℚ) := by
  rw [toRat, ten_zpow_eq_div, Nat.cast_mul, mul_div_assoc]

/-! ## The leading digit -/

theorem toRat_lt_zpow (d : Decimal) : d.toRat < 10 ^ (d.leading + 1) := by
  have hcoefficient : (d.coefficient : ℚ) < 10 ^ Numeral.length d.coefficient := by
    exact_mod_cast Numeral.lt_pow_length d.coefficient
  have hexponent : d.leading + 1 = Numeral.length d.coefficient + d.exponent := by
    unfold leading
    omega
  rw [hexponent, zpow_add₀ (by norm_num), zpow_natCast, toRat]
  exact mul_lt_mul_of_pos_right hcoefficient (by positivity)

theorem zpow_leading_le (h : d.coefficient ≠ 0) : 10 ^ d.leading ≤ d.toRat := by
  have hcoefficient : (10 : ℚ) ^ (Numeral.length d.coefficient - 1) ≤ d.coefficient := by
    exact_mod_cast Numeral.pow_length_le h
  have hexponent : d.leading = ((Numeral.length d.coefficient - 1 : ℕ) : ℤ) + d.exponent := by
    have := Numeral.length_pos d.coefficient
    unfold leading
    omega
  rw [hexponent, zpow_add₀ (by norm_num), zpow_natCast, toRat]
  exact mul_le_mul_of_nonneg_right hcoefficient (by positivity)

/-- The leading digit tells the size of a number. -/
theorem toRat_lt_zpow_iff (h : d.coefficient ≠ 0) {k : ℤ} :
    d.toRat < 10 ^ k ↔ d.leading < k := by
  constructor
  · intro hlt
    exact (zpow_lt_zpow_iff_right₀ (by norm_num : (1 : ℚ) < 10)).mp
      ((zpow_leading_le h).trans_lt hlt)
  · intro hlt
    exact (toRat_lt_zpow d).trans_le (zpow_le_zpow_right₀ (by norm_num) hlt)

/-! ## The integer part -/

theorem floor_eq (d : Decimal) : d.floor = ⌊d.toRat⌋₊ := by
  unfold floor
  split
  next hleading =>
    have hlt : d.toRat < 1 := by
      have := (toRat_lt_zpow d).trans_le (zpow_le_zpow_right₀ (by norm_num : (1 : ℚ) ≤ 10) hleading)
      simpa using this
    exact (Nat.floor_eq_zero.mpr hlt).symm
  next =>
    rw [toRat_eq_div, Nat.floor_div_eq_div]
    rfl

end Decimal

end PerpRollout
