import PerpRollout.FixedPoint
import PerpRollout.Proofs.Check.Judgement
import PerpRollout.Proofs.Decimal.Quotient

/-!
# What fixed-point numerals mean

Numerals that are short enough to be read (`Numeral.IsShort`) have a quotient: the exact one
rounded to 80 significant digits (`ratio_isRounding`). A numeral below `10 ^ 80` means its
number divided by the power of ten of its decimals, exactly (`toDecimal_exact`).
-/

namespace PerpRollout

namespace FixedPoint

open Decimal (Fits IsRounding toRat_ofNat)
open Numeral (IsShort value)

variable {n m v : String} {decimals : ℤ}

/-! ## The decimal of a numeral -/

theorem scale_of_nonneg (hd : 0 ≤ decimals) : scale decimals = .ok (10 ^ decimals.toNat) := by
  rw [scale, if_neg (not_lt.mpr hd)]
  rfl

theorem toDecimal_eq (hv : IsShort v) (hd : 0 ≤ decimals) (name : String) :
    toDecimal (.str v) decimals name =
      .ok (.divide precision (.ofNat (value v.toList)) (.ofNat (10 ^ decimals.toNat))) := by
  rw [toDecimal, Check.numeral_none hv.isNumeral hv.length_le, scale_of_nonneg hd]
  rfl

/-- A number of at most 80 digits is divided by a power of ten exactly. -/
theorem fits_div_pow {k : ℕ} (hk : k < 10 ^ precision) (places : ℕ) :
    Fits precision (k / (10 ^ places : ℕ)) := by
  refine ⟨⟨k, -(places : ℤ)⟩, hk, ?_⟩
  rw [Decimal.toRat, zpow_neg, zpow_natCast, div_eq_mul_inv, Nat.cast_pow, Nat.cast_ofNat]

theorem toRat_divide_pow {k : ℕ} (hk : k < 10 ^ precision) (places : ℕ) :
    (Decimal.divide precision (.ofNat k) (.ofNat (10 ^ places))).toRat =
      k / (10 ^ places : ℕ) := by
  have hb : (Decimal.ofNat (10 ^ places)).coefficient ≠ 0 := (Nat.pow_pos (by decide)).ne'
  have hrounding := Decimal.isRounding_divide (by decide : 1 < precision) (.ofNat k) hb
  rw [toRat_ofNat, toRat_ofNat] at hrounding
  exact hrounding.toRat_eq (fits_div_pow hk places)

/-- What a numeral of at most 80 digits means at a scale. -/
theorem toDecimal_exact (hv : IsShort v) (hsmall : value v.toList < 10 ^ precision)
    (hd : 0 ≤ decimals) (name : String) :
    ∃ q, toDecimal (.str v) decimals name = .ok q ∧ q.toRat = value v.toList / 10 ^ decimals := by
  rw [Decimal.ten_zpow_of_nonneg hd]
  exact ⟨_, toDecimal_eq hv hd name, toRat_divide_pow hsmall _⟩

/-! ## Quotients -/

theorem ratio_eq (hn : IsShort n) (hm : IsShort m) (hzero : value m.toList ≠ 0) :
    ratio (.str n) (.str m) =
      .ok (.divide precision (.ofNat (value n.toList)) (.ofNat (value m.toList))) := by
  simp only [ratio, Check.numeral_none hn.isNumeral hn.length_le,
    Check.numeral_none hm.isNumeral hm.length_le, bind, Except.bind, if_neg hzero]
  rfl

/-- A quotient cannot be taken by zero. -/
theorem ratio_of_zero (hn : IsShort n) (hm : IsShort m) (hzero : value m.toList = 0) :
    ratio (.str n) (.str m) = refuse .zeroDenominator := by
  simp only [ratio, Check.numeral_none hn.isNumeral hn.length_le,
    Check.numeral_none hm.isNumeral hm.length_le, bind, Except.bind, if_pos hzero]

theorem exists_ratio (hn : IsShort n) (hm : IsShort m) (hzero : value m.toList ≠ 0) :
    ∃ q, ratio (.str n) (.str m) = .ok q ∧
      IsRounding precision (value n.toList / value m.toList) q := by
  refine ⟨_, ratio_eq hn hm hzero, ?_⟩
  have hrounding := Decimal.isRounding_divide (by decide : 1 < precision)
    (.ofNat (value n.toList)) (b := .ofNat (value m.toList)) hzero
  rwa [toRat_ofNat, toRat_ofNat] at hrounding

/-- The quotient depends on the quotient of the numbers alone. -/
theorem ratio_mul_left {n' m' : String} {k : ℕ} (hn : IsShort n) (hm : IsShort m)
    (hzero : value m.toList ≠ 0) (hn' : IsShort n') (hm' : IsShort m') (hk : k ≠ 0)
    (hnumerator : value n'.toList = k * value n.toList)
    (hdenominator : value m'.toList = k * value m.toList) :
    ratio (.str n') (.str m') = ratio (.str n) (.str m) := by
  have hzero' : value m'.toList ≠ 0 := hdenominator ▸ Nat.mul_ne_zero hk hzero
  rw [ratio_eq hn hm hzero, ratio_eq hn' hm' hzero', hnumerator, hdenominator]
  exact congrArg Except.ok (Decimal.divide_mul_left (by decide) hk hzero 0 0)

theorem ratio_isRounding (hn : IsShort n) (hm : IsShort m) (hzero : value m.toList ≠ 0) :
    ∃ q, ratio (.str n) (.str m) = .ok q ∧
      (Fits 80 (value n.toList / value m.toList) → q.toRat = value n.toList / value m.toList) ∧
      IsRounding 80 (value n.toList / value m.toList) q ∧
      (∀ k n' m', IsShort n' → IsShort m' → k ≠ 0 → value n'.toList = k * value n.toList →
        value m'.toList = k * value m.toList → ratio (.str n') (.str m') = .ok q) ∧
      (∀ n', IsShort n' → value n.toList ≤ value n'.toList →
        ∃ q', ratio (.str n') (.str m) = .ok q' ∧ q.toRat ≤ q'.toRat) ∧
      ∀ m', IsShort m' → value m.toList ≤ value m'.toList →
        ∃ q', ratio (.str n) (.str m') = .ok q' ∧ q'.toRat ≤ q.toRat := by
  obtain ⟨q, hq, hrounding⟩ := exists_ratio hn hm hzero
  refine ⟨q, hq, hrounding.toRat_eq, hrounding, ?_, ?_, ?_⟩
  · intro k n' m' hn' hm' hk hnumerator hdenominator
    rw [ratio_mul_left hn hm hzero hn' hm' hk hnumerator hdenominator, hq]
  · intro n' hn' hle
    obtain ⟨q', hq', hrounding'⟩ := exists_ratio hn' hm hzero
    refine ⟨q', hq', hrounding.mono (by decide) hrounding' ?_⟩
    exact div_le_div_of_nonneg_right (by exact_mod_cast hle) (Nat.cast_nonneg _)
  · intro m' hm' hle
    have hpos := Nat.pos_of_ne_zero hzero
    obtain ⟨q', hq', hrounding'⟩ := exists_ratio hn hm' (hpos.trans_le hle).ne'
    refine ⟨q', hq', hrounding'.mono (by decide) hrounding ?_⟩
    exact div_le_div_of_nonneg_left (Nat.cast_nonneg _) (by exact_mod_cast hpos)
      (by exact_mod_cast hle)

/-- Half way between two numbers of 80 digits. -/
def tie : String :=
  "100000000000000000000000000000000000000000000000000000000000000000000000000000005"

theorem ratio_isRounding_of_tie :
    IsShort tie ∧ IsShort "1" ∧ value "1".toList ≠ 0 ∧
      ∃ q, ratio (.str tie) (.str "1") = .ok q ∧ q = ⟨10 ^ 79, 1⟩ ∧
        IsRounding 80 (value tie.toList / value "1".toList) q ∧
        ∃ q', ratio (.str tie) (.str "3") = .ok q' ∧ q'.toRat ≤ q.toRat := by
  have htie : IsShort tie := by decide
  have hone : IsShort "1" := by decide
  have hzero : value "1".toList ≠ 0 := by decide
  obtain ⟨q, hq, -, hrounding, -, -, hfalls⟩ := ratio_isRounding htie hone hzero
  refine ⟨htie, hone, hzero, q, hq, ?_, hrounding, hfalls "3" (by decide) (by decide)⟩
  have hvalue : value tie.toList = 10 ^ 80 + 5 := by decide +kernel
  have hunit : value "1".toList = 1 := by decide
  have heven : Decimal.divide precision (.ofNat (10 ^ 80 + 5)) (.ofNat 1) = ⟨10 ^ 79, 1⟩ := by
    decide +kernel
  rw [ratio_eq htie hone hzero, hvalue, hunit, heven] at hq
  exact (Except.ok.inj hq).symm

end FixedPoint

end PerpRollout
