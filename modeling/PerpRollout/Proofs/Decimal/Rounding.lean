import PerpRollout.Proofs.Decimal.Value

/-!
# Rounding to significant digits

`IsRounding precision x d` says of a decimal that it is the number `x` rounded to so many
significant digits: `x` itself when it has no more, else the nearest decimal that has as
many, of two equally near ones the one whose last digit is even. There is only one such
number (`IsRounding.unique`), and it grows with `x` (`IsRounding.mono`). Of the integer
part of a quotient rounded this way it is enough to know that it has as many digits
(`isRounding_carry`); rounding a decimal is the first case (`isRounding_round`).
-/

namespace PerpRollout

/-! ## The nearest integer -/

section

variable {n m : ℕ}

/-- The rounding of a quotient is at most half a unit away from it. -/
theorem abs_roundHalfEven_sub_le (hm : 0 < m) : |(roundHalfEven n m : ℚ) - n / m| ≤ 1 / 2 := by
  have hpos : (0 : ℚ) < m := by exact_mod_cast hm
  have above : 2 * ((roundHalfEven n m : ℚ) * m) ≤ 2 * n + m := by
    exact_mod_cast roundHalfEven_mul_le (n := n) hm
  have below : 2 * (n : ℚ) ≤ 2 * ((roundHalfEven n m : ℚ) * m) + m := by
    exact_mod_cast le_roundHalfEven_mul (n := n) hm
  have hdistance : ((roundHalfEven n m : ℚ) - n / m) * m = roundHalfEven n m * m - n := by
    field_simp
  rw [abs_le]
  constructor <;> nlinarith

/-- Other integers are at least half a unit away. -/
theorem half_le_abs_sub (hm : 0 < m) {k : ℤ} (hk : k ≠ roundHalfEven n m) :
    1 / 2 ≤ |(k : ℚ) - n / m| := by
  have hunit : (1 : ℚ) ≤ |(k : ℚ) - roundHalfEven n m| := by
    have : 1 ≤ |k - (roundHalfEven n m : ℤ)| := Int.one_le_abs (sub_ne_zero.mpr hk)
    exact_mod_cast this
  have hsplit := abs_sub_le (k : ℚ) (n / m) (roundHalfEven n m)
  rw [abs_sub_comm (n / m : ℚ)] at hsplit
  have := abs_roundHalfEven_sub_le (n := n) hm
  linarith

/-- At half a unit the rounding is even. -/
theorem roundHalfEven_mod_two_of_abs_eq (hm : 0 < m)
    (h : |(roundHalfEven n m : ℚ) - n / m| = 1 / 2) : roundHalfEven n m % 2 = 0 := by
  have hpos : (0 : ℚ) < m := by exact_mod_cast hm
  have hdistance : ((roundHalfEven n m : ℚ) - n / m) * m = roundHalfEven n m * m - n := by
    field_simp
  have hhalf : 2 * (roundHalfEven n m * m) = 2 * n + m ∨
      2 * n = 2 * (roundHalfEven n m * m) + m := by
    rcases abs_choice ((roundHalfEven n m : ℚ) - n / m) with habs | habs
    · left
      have : 2 * ((roundHalfEven n m : ℚ) * m) = 2 * n + m := by
        rw [← habs, h] at hdistance
        linarith
      exact_mod_cast this
    · right
      have : 2 * (n : ℚ) = 2 * ((roundHalfEven n m : ℚ) * m) + m := by
        rw [← neg_neg ((roundHalfEven n m : ℚ) - n / m), ← habs, h] at hdistance
        linarith
      exact_mod_cast this
  apply roundHalfEven_mod_two
  have parts : n / m * m + n % m = n := Nat.div_add_mod' n m
  have carry : (n / m + 1) * m = n / m * m + m := Nat.succ_mul _ _
  have small : n % m < m := Nat.mod_lt n hm
  rcases (le_roundHalfEven n m).eq_or_lt with hq | hq
  · rw [← hq] at hhalf
    omega
  · have hq : roundHalfEven n m = n / m + 1 := by
      have := roundHalfEven_le n m
      omega
    rw [hq] at hhalf
    omega

theorem roundHalfEven_mul_left {k : ℕ} (hk : k ≠ 0) :
    roundHalfEven (k * n) (k * m) = roundHalfEven n m := by
  have hpos : 0 < k := Nat.pos_of_ne_zero hk
  have hdiv : k * n / (k * m) = n / m := Nat.mul_div_mul_left n m hpos
  have hmod : k * n % (k * m) = k * (n % m) := Nat.mul_mod_mul_left k n m
  have hdouble : 2 * (k * (n % m)) = k * (2 * (n % m)) := Nat.mul_left_comm 2 k _
  simp only [roundHalfEven, hdiv, hmod, hdouble, Nat.mul_lt_mul_left hpos]

end

namespace Decimal

variable {precision : ℕ} {x y : ℚ} {d d' : Decimal}

/-! ## Numbers of so many digits -/

/-- A number of at most so many significant digits. -/
def Fits (precision : ℕ) (x : ℚ) : Prop :=
  ∃ d : Decimal, d.coefficient < 10 ^ precision ∧ d.toRat = x

theorem fits_toRat (h : d.coefficient < 10 ^ precision) : Fits precision d.toRat :=
  ⟨d, h, rfl⟩

/-- The last digit may be a ten. -/
theorem fits_of_le {c : ℕ} (hpos : 0 < precision) (h : c ≤ 10 ^ precision) (e : ℤ) :
    Fits precision (toRat ⟨c, e⟩) := by
  rcases h.eq_or_lt with rfl | h
  · refine ⟨⟨1, e + precision⟩, Nat.one_lt_pow hpos.ne' (by decide), ?_⟩
    rw [← toRat_mul_pow, Nat.one_mul]
  · exact fits_toRat h

theorem fits_zpow (hpos : 0 < precision) (k : ℤ) : Fits precision (10 ^ k) := by
  refine ⟨⟨1, k⟩, Nat.one_lt_pow hpos.ne' (by decide), ?_⟩
  simp [toRat]

theorem fits_natCast (hpos : 0 < precision) {n : ℕ} (h : n ≤ 10 ^ precision) :
    Fits precision n := by
  have hfits := fits_of_le hpos h 0
  rwa [toRat, zpow_zero, mul_one] at hfits

/-- Seen from a place of the number, what is of so many digits has none after that place, or
it has too few before it. -/
theorem Fits.cases (hpos : 0 < precision) (h : Fits precision y) (e : ℤ) :
    (∃ k : ℕ, y = toRat ⟨k, e⟩) ∨ y < toRat ⟨10 ^ (precision - 1), e⟩ := by
  obtain ⟨d, hd, rfl⟩ := h
  rcases le_or_gt e d.exponent with he | he
  · left
    have hexponent : e + ((d.exponent - e).toNat : ℤ) = d.exponent := by omega
    refine ⟨d.coefficient * 10 ^ (d.exponent - e).toNat, ?_⟩
    rw [toRat_mul_pow, hexponent]
  · right
    have hcoefficient : (d.coefficient : ℚ) < 10 ^ precision := by exact_mod_cast hd
    have hexponent : (precision : ℤ) + d.exponent ≤ ((precision - 1 : ℕ) : ℤ) + e := by omega
    calc d.toRat < 10 ^ precision * 10 ^ d.exponent :=
          mul_lt_mul_of_pos_right hcoefficient (by positivity)
      _ = 10 ^ ((precision : ℤ) + d.exponent) := by
          rw [zpow_add₀ (by norm_num), zpow_natCast]
      _ ≤ 10 ^ (((precision - 1 : ℕ) : ℤ) + e) := zpow_le_zpow_right₀ (by norm_num) hexponent
      _ = toRat ⟨10 ^ (precision - 1), e⟩ := by
          rw [zpow_add₀ (by norm_num), zpow_natCast, toRat, Nat.cast_pow, Nat.cast_ofNat]

/-! ## The rounding of a number -/

/-- The decimal is the number rounded to so many significant digits. -/
structure IsRounding (precision : ℕ) (x : ℚ) (d : Decimal) : Prop where
  fits : d.coefficient < 10 ^ precision
  /-- Where digits are lost, there are as many as there may be. -/
  full : ¬Fits precision x → 10 ^ (precision - 1) ≤ d.coefficient
  nearest : ∀ y, Fits precision y → |d.toRat - x| ≤ |y - x|
  /-- Of two equally near decimals it is the even one. -/
  even : ∀ y, Fits precision y → y ≠ d.toRat → |y - x| = |d.toRat - x| → d.coefficient % 2 = 0

namespace IsRounding

/-- A number with no more digits is its own rounding. -/
theorem of_fits (h : d.coefficient < 10 ^ precision) : IsRounding precision d.toRat d where
  fits := h
  full hno := absurd (fits_toRat h) hno
  nearest y _ := by simp
  even y _ hne heq := by
    rw [sub_self, abs_zero, abs_eq_zero, sub_eq_zero] at heq
    exact absurd heq hne

variable (h : IsRounding precision x d)

include h

theorem toRat_eq (hx : Fits precision x) : d.toRat = x := by
  have hzero := h.nearest x hx
  rw [sub_self, abs_zero] at hzero
  exact sub_eq_zero.mp (abs_eq_zero.mp (le_antisymm hzero (abs_nonneg _)))

/-- A bound with no more digits is kept. -/
theorem le_toRat (hy : Fits precision y) (hle : y ≤ x) : y ≤ d.toRat := by
  by_contra hlt
  have hnear := h.nearest y hy
  rw [abs_of_nonpos (by linarith), abs_of_nonpos (by linarith)] at hnear
  linarith

theorem toRat_le (hy : Fits precision y) (hle : x ≤ y) : d.toRat ≤ y := by
  by_contra hlt
  have hnear := h.nearest y hy
  rw [abs_of_nonneg (by linarith), abs_of_nonneg (by linarith)] at hnear
  linarith

end IsRounding

/-- Rounding does not leave the interval between two integers, if these have no more digits. -/
theorem IsRounding.floor_le (hpos : 0 < precision) (h : IsRounding precision x d) (hx : 0 ≤ x)
    (hd : d.toRat < 10 ^ precision) :
    (⌊x⌋₊ : ℚ) ≤ d.toRat ∧ d.toRat ≤ ⌊x⌋₊ + 1 := by
  have hfloor : ⌊x⌋₊ < 10 ^ precision := by
    by_contra hge
    have hlarge : ((10 : ℚ) ^ (precision : ℤ)) ≤ x := by
      rw [zpow_natCast]
      calc ((10 : ℚ) ^ precision) = ((10 ^ precision : ℕ) : ℚ) := by norm_num
        _ ≤ (⌊x⌋₊ : ℚ) := by exact_mod_cast not_lt.mp hge
        _ ≤ x := Nat.floor_le hx
    have := h.le_toRat (fits_zpow hpos precision) hlarge
    rw [zpow_natCast] at this
    exact absurd hd (not_lt.mpr this)
  have hbelow := h.le_toRat (fits_natCast hpos hfloor.le) (Nat.floor_le hx)
  have hnext : ((⌊x⌋₊ + 1 : ℕ) : ℚ) = ⌊x⌋₊ + 1 := Nat.cast_succ _
  have habove := h.toRat_le (fits_natCast hpos hfloor) (hnext ▸ (Nat.lt_floor_add_one x).le)
  exact ⟨hbelow, hnext ▸ habove⟩

theorem IsRounding.pos (hpos : 0 < precision) (h : IsRounding precision x d)
    {k : ℤ} (hx : 10 ^ k ≤ x) : 0 < d.toRat :=
  lt_of_lt_of_le (by positivity) (h.le_toRat (fits_zpow hpos k) hx)

/-! ## There is one rounding -/

/-- What is no farther from a number than something below it is not beyond twice the number. -/
theorem add_le_of_abs_sub_le {a b : ℚ} (hlt : a < b) (h : |b - x| ≤ |a - x|) : a + b ≤ 2 * x := by
  have hsquares := sq_le_sq.mpr h
  nlinarith

theorem le_add_of_abs_sub_le {a b : ℚ} (hlt : a < b) (h : |a - x| ≤ |b - x|) : 2 * x ≤ a + b := by
  have hsquares := sq_le_sq.mpr h
  nlinarith

theorem toRat_lt_toRat_iff {a b : ℕ} {e : ℤ} : toRat ⟨a, e⟩ < toRat ⟨b, e⟩ ↔ a < b := by
  have h10 : (0 : ℚ) < 10 ^ e := by positivity
  simp [toRat, mul_lt_mul_iff_left₀ h10]

theorem toRat_le_toRat_iff {a b : ℕ} {e : ℤ} : toRat ⟨a, e⟩ ≤ toRat ⟨b, e⟩ ↔ a ≤ b := by
  have h10 : (0 : ℚ) < 10 ^ e := by positivity
  simp [toRat, mul_le_mul_iff_left₀ h10]

/-- An even number of as many digits as there may be is not one more than an even number with
that last place. -/
theorem toRat_ne_succ {c : ℕ} {e : ℤ} (hpos : 0 < precision) (hlow : 10 ^ (precision - 1) ≤ c)
    (heven : c % 2 = 0) (hd : d.coefficient < 10 ^ precision) (heven' : d.coefficient % 2 = 0) :
    d.toRat ≠ toRat ⟨c + 1, e⟩ := by
  intro h
  rcases le_or_gt e d.exponent with he | he
  · have hexponent : d.exponent = e + ((d.exponent - e).toNat : ℤ) := by omega
    have hsame : d.toRat = toRat ⟨d.coefficient * 10 ^ (d.exponent - e).toNat, e⟩ := by
      rw [toRat_mul_pow, ← hexponent]
    rw [hsame] at h
    have hc : d.coefficient * 10 ^ (d.exponent - e).toNat = c + 1 :=
      le_antisymm (toRat_le_toRat_iff.mp h.le) (toRat_le_toRat_iff.mp h.ge)
    have : d.coefficient * 10 ^ (d.exponent - e).toNat % 2 = 0 := by
      rw [Nat.mul_mod, heven', Nat.zero_mul, Nat.zero_mod]
    omega
  · have hexponent : e = d.exponent + ((e - d.exponent).toNat : ℤ) := by omega
    rw [hexponent, ← toRat_mul_pow] at h
    have hc : (c + 1) * 10 ^ (e - d.exponent).toNat ≤ d.coefficient :=
      toRat_le_toRat_iff.mp h.ge
    have hten : 10 ^ 1 ≤ 10 ^ (e - d.exponent).toNat :=
      Nat.pow_le_pow_right (by decide) (by omega)
    have hpower : 10 ^ (precision - 1) * 10 = 10 ^ precision := by
      rw [← Nat.pow_succ, Nat.succ_eq_add_one, Nat.sub_add_cancel hpos]
    have hwide : 10 ^ (precision - 1) * 10 ≤ (c + 1) * 10 ^ (e - d.exponent).toNat :=
      Nat.mul_le_mul (by omega) hten
    omega

namespace IsRounding

/-- Two roundings of one number would be even neighbours with the number half way. -/
theorem ge_of_isRounding (hpos : 0 < precision) (h : IsRounding precision x d)
    (h' : IsRounding precision x d') : d'.toRat ≤ d.toRat := by
  by_contra hgt
  have hlt : d.toRat < d'.toRat := not_le.mp hgt
  have hnear := h.nearest _ (fits_toRat h'.fits)
  have hnear' := h'.nearest _ (fits_toRat h.fits)
  have hmiddle : 2 * x = d.toRat + d'.toRat :=
    le_antisymm (le_add_of_abs_sub_le hlt hnear) (add_le_of_abs_sub_le hlt hnear')
  have hlost : ¬Fits precision x := by
    intro hx
    rw [h.toRat_eq hx, h'.toRat_eq hx] at hlt
    exact lt_irrefl x hlt
  have heven := h.even _ (fits_toRat h'.fits) hlt.ne' (le_antisymm hnear' hnear)
  have heven' := h'.even _ (fits_toRat h.fits) hlt.ne (le_antisymm hnear hnear')
  have hlow := h.full hlost
  have hnext : d'.toRat ≤ toRat ⟨d.coefficient + 1, d.exponent⟩ := by
    by_contra hbetween
    have hstep : d.toRat < toRat ⟨d.coefficient + 1, d.exponent⟩ :=
      toRat_lt_toRat_iff.mpr (Nat.lt_succ_self _)
    have := le_add_of_abs_sub_le hstep (h.nearest _ (fits_of_le hpos h.fits d.exponent))
    linarith
  rcases (fits_toRat h'.fits).cases hpos d.exponent with ⟨k, hk⟩ | hsmall
  · rw [hk] at hnext hlt
    have hle := toRat_le_toRat_iff.mp hnext
    have hge := toRat_lt_toRat_iff.mp hlt
    obtain rfl : k = d.coefficient + 1 := by omega
    exact toRat_ne_succ hpos hlow heven h'.fits heven' hk
  · have := hsmall.trans_le (toRat_le_toRat_iff.mpr hlow)
    exact absurd (hlt.trans this) (lt_irrefl _)

/-- A number has one rounding. -/
theorem unique (hpos : 0 < precision) (h : IsRounding precision x d)
    (h' : IsRounding precision x d') : d.toRat = d'.toRat :=
  le_antisymm (h'.ge_of_isRounding hpos h) (h.ge_of_isRounding hpos h')

/-- The roundings of two numbers are in the order of the numbers. -/
theorem mono {x' : ℚ} (hpos : 0 < precision) (h : IsRounding precision x d)
    (h' : IsRounding precision x' d') (hle : x ≤ x') : d.toRat ≤ d'.toRat := by
  rcases hle.eq_or_lt with rfl | hlt
  · exact (h.unique hpos h').le
  · by_contra hgt
    have hgt : d'.toRat < d.toRat := not_le.mp hgt
    have := add_le_of_abs_sub_le hgt (h.nearest _ (fits_toRat h'.fits))
    have := le_add_of_abs_sub_le hgt (h'.nearest _ (fits_toRat h.fits))
    linarith

end IsRounding

/-! ## Rounding an integer part -/

theorem toRat_carry (hpos : 0 < precision) (d : Decimal) : (carry precision d).toRat = d.toRat := by
  unfold carry
  split
  next h =>
    have hpower : Nat.pow 10 precision = Nat.pow 10 (precision - 1) * 10 ^ 1 := by
      rw [Nat.pow_one, Nat.pow_eq, Nat.pow_eq, ← Nat.pow_succ, Nat.succ_eq_add_one,
        Nat.sub_add_cancel hpos]
    obtain ⟨c, e⟩ := d
    obtain rfl : c = Nat.pow 10 precision := h
    rw [hpower, toRat_mul_pow]
    rfl
  next => rfl

/-- What is said of a coefficient and of a power of ten is said of the coefficient after a
carry. -/
theorem coefficient_carry {P : ℕ → Prop} (hten : P (10 ^ (precision - 1)))
    (hd : d.coefficient ≠ 10 ^ precision → P d.coefficient) :
    P (carry precision d).coefficient := by
  unfold carry
  split
  next => exact hten
  next h => exact hd h

section

variable {n m : ℕ}

/-- Distances from a number are measured in units of a place. -/
theorem abs_toRat_sub_mul (k : ℕ) (q : ℚ) (e : ℤ) :
    |toRat ⟨k, e⟩ - q * 10 ^ e| = |((k : ℤ) : ℚ) - q| * 10 ^ e := by
  have h10 : (0 : ℚ) < 10 ^ e := by positivity
  rw [toRat, ← sub_mul, abs_mul, abs_of_pos h10, Int.cast_natCast]

/-- No other number that ends at the place is nearer than the nearest integer there. -/
theorem abs_toRat_roundHalfEven_sub_le (hm : 0 < m) (k : ℕ) (e : ℤ) :
    |toRat ⟨roundHalfEven n m, e⟩ - (n / m : ℚ) * 10 ^ e| ≤
      |toRat ⟨k, e⟩ - (n / m : ℚ) * 10 ^ e| := by
  by_cases hk : (k : ℤ) = roundHalfEven n m
  · rw [Int.natCast_inj.mp hk]
  · rw [abs_toRat_sub_mul, abs_toRat_sub_mul]
    exact mul_le_mul_of_nonneg_right
      ((abs_roundHalfEven_sub_le hm).trans (half_le_abs_sub hm hk)) (by positivity)

/-- What is below some number that ends at the place, and that below the quotient, is farther
away than the nearest integer there. -/
theorem abs_toRat_roundHalfEven_sub_lt {c : ℕ} {e : ℤ} (hm : 0 < m) (hc : m * c ≤ n)
    (hy : y < toRat ⟨c, e⟩) :
    |toRat ⟨roundHalfEven n m, e⟩ - (n / m : ℚ) * 10 ^ e| < |y - (n / m : ℚ) * 10 ^ e| := by
  have hbelow : toRat ⟨c, e⟩ ≤ (n / m : ℚ) * 10 ^ e := by
    have : (c : ℚ) ≤ n / m := by
      rw [le_div_iff₀ (by exact_mod_cast hm), mul_comm]
      exact_mod_cast hc
    exact mul_le_mul_of_nonneg_right this (by positivity)
  refine (abs_toRat_roundHalfEven_sub_le hm c e).trans_lt ?_
  rw [abs_of_nonpos (by linarith), abs_of_nonpos (by linarith)]
  linarith

/-- If another number that ends at the place is as near, the nearest integer there is even. -/
theorem roundHalfEven_mod_two_of_abs_toRat_eq {k : ℕ} {e : ℤ} (hm : 0 < m)
    (hk : k ≠ roundHalfEven n m)
    (h : |toRat ⟨k, e⟩ - (n / m : ℚ) * 10 ^ e| =
      |toRat ⟨roundHalfEven n m, e⟩ - (n / m : ℚ) * 10 ^ e|) :
    roundHalfEven n m % 2 = 0 := by
  have h10 : (10 : ℚ) ^ e ≠ 0 := by positivity
  rw [abs_toRat_sub_mul, abs_toRat_sub_mul, mul_left_inj' h10] at h
  have hhalf := half_le_abs_sub (n := n) hm (Int.natCast_inj.not.mpr hk)
  rw [h] at hhalf
  exact roundHalfEven_mod_two_of_abs_eq hm (le_antisymm (abs_roundHalfEven_sub_le hm) hhalf)

/-- A quotient of so many digits before the point, at some place of a number, is rounded to the
nearest integer there. -/
theorem isRounding_carry (hprecision : 1 < precision) (hm : 0 < m)
    (hlow : m * 10 ^ (precision - 1) ≤ n) (hhigh : n < m * 10 ^ precision) (e : ℤ) :
    IsRounding precision ((n / m : ℚ) * 10 ^ e) (carry precision ⟨roundHalfEven n m, e⟩) := by
  have hpos : 0 < precision := by omega
  constructor
  case fits =>
    have hmost : roundHalfEven n m ≤ 10 ^ precision :=
      (roundHalfEven_le n m).trans (Nat.div_lt_of_lt_mul hhigh)
    have hten : 10 ^ (precision - 1) < 10 ^ precision :=
      Nat.pow_lt_pow_right (by decide) (Nat.sub_lt hpos Nat.one_pos)
    exact coefficient_carry (P := (· < 10 ^ precision)) hten fun hne => lt_of_le_of_ne hmost hne
  case full =>
    intro _
    have hleast : 10 ^ (precision - 1) ≤ roundHalfEven n m :=
      ((Nat.le_div_iff_mul_le hm).mpr (by rwa [Nat.mul_comm])).trans (le_roundHalfEven n m)
    exact coefficient_carry (P := (10 ^ (precision - 1) ≤ ·)) le_rfl fun _ => hleast
  case nearest =>
    intro y hy
    rw [toRat_carry hpos]
    rcases hy.cases hpos e with ⟨k, rfl⟩ | hy
    · exact abs_toRat_roundHalfEven_sub_le hm k e
    · exact (abs_toRat_roundHalfEven_sub_lt hm hlow hy).le
  case even =>
    intro y hy hne heq
    rw [toRat_carry hpos] at hne heq
    have hround : roundHalfEven n m % 2 = 0 := by
      rcases hy.cases hpos e with ⟨k, rfl⟩ | hy
      · exact roundHalfEven_mod_two_of_abs_toRat_eq hm (fun hk => hne (by rw [hk])) heq
      · exact absurd heq (abs_toRat_roundHalfEven_sub_lt hm hlow hy).ne'
    have hten : 10 ^ (precision - 1) % 2 = 0 := by
      rw [Nat.pow_mod, Nat.zero_pow (by omega)]
    exact coefficient_carry (P := (· % 2 = 0)) hten fun _ => hround

end

/-! ## Rounding a decimal -/

theorem isRounding_round (hprecision : 1 < precision) (d : Decimal) :
    IsRounding precision d.toRat (round precision d) := by
  have hpos : 0 < precision := by omega
  unfold round
  dsimp only
  split
  next hextra =>
    exact .of_fits ((Numeral.length_le_iff hpos).mp (Nat.sub_eq_zero_iff_le.mp hextra))
  next hextra =>
    have hzero : d.coefficient ≠ 0 := by
      intro h
      rw [h] at hextra
      exact hextra (Nat.sub_eq_zero_of_le hpos)
    generalize hdropped : Numeral.length d.coefficient - precision = extra at hextra ⊢
    have hlow : 10 ^ extra * 10 ^ (precision - 1) ≤ d.coefficient := by
      have hlength : extra + (precision - 1) = Numeral.length d.coefficient - 1 := by omega
      rw [← Nat.pow_add, hlength]
      exact Numeral.pow_length_le hzero
    have hhigh : d.coefficient < 10 ^ extra * 10 ^ precision := by
      have hlength : extra + precision = Numeral.length d.coefficient := by omega
      rw [← Nat.pow_add, hlength]
      exact Numeral.lt_pow_length _
    have hsame : d.toRat =
        (d.coefficient / (10 ^ extra : ℕ) : ℚ) * 10 ^ (d.exponent + (extra : ℤ)) := by
      rw [zpow_add₀ (by norm_num), zpow_natCast, toRat, Nat.cast_pow, Nat.cast_ofNat]
      field_simp
    rw [hsame]
    exact isRounding_carry hprecision (by positivity) hlow hhigh _

end Decimal

end PerpRollout
