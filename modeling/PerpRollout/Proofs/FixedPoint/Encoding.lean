import PerpRollout.Proofs.Decimal.Plain
import PerpRollout.Proofs.FixedPoint

/-!
# Amounts as fixed-point numerals

The numeral of an amount is the integer part of the amount at the scale, rounded to 80
significant digits (`fromDecimal_eq_ok_iff`). So it is the integer part of the amount at the
scale, unless the rounding comes to the next integer (`floor_rounding`). Of a number below
`10 ^ 80` nothing is rounded away: what its numeral means is written by the numeral itself
(`fromDecimal_plain`), and what is written of an amount means the amount
(`toDecimal_fromDecimal`).
-/

namespace PerpRollout

namespace FixedPoint

open Decimal (Fits IsRounding IsPlain ofDigits)
open Numeral (IsShort value)

variable {a : Amount} {negative : Bool} {d q : Decimal} {decimals : ℤ} {v : String}

/-! ## The numeral of an amount -/

/-- The amount at the scale, rounded to 80 significant digits, has to be below `10 ^ 80`; its
integer part is what is written. -/
theorem fromDecimal_eq_ok_iff (hread : a.read? = some (.finite negative d))
    (hsign : negative = true → d.coefficient = 0) (hscale : 0 ≤ decimals) :
    ∃ q, IsRounding precision (d.toRat * 10 ^ decimals) q ∧
      ∀ output, fromDecimal a decimals = .ok output ↔
        q.toRat < 10 ^ precision ∧ output = Numeral.ofNat ⌊q.toRat⌋₊ := by
  have hrounding := Decimal.isRounding_round (by decide : 1 < precision)
    ⟨d.coefficient, d.exponent + decimals⟩
  rw [← Decimal.toRat_mul_zpow] at hrounding
  refine ⟨_, hrounding, fun output => ?_⟩
  have hnegative : (negative && d.coefficient != 0) = false := by
    cases negative with
    | false => rfl
    | true => simp [hsign rfl]
  unfold fromDecimal
  simp only [hread, hnegative, if_neg (not_lt.mpr hscale), Bool.false_eq_true, if_false]
  generalize Decimal.round precision ⟨d.coefficient, d.exponent + decimals⟩ = q at hrounding ⊢
  by_cases hzero : d.coefficient = 0
  · have hq : q.toRat = 0 := by
      have hfits : Fits precision (d.toRat * 10 ^ decimals) := by
        rw [Decimal.toRat_eq_zero_iff.mpr hzero, zero_mul]
        exact Decimal.fits_natCast (by decide) (Nat.zero_le _)
      rw [hrounding.toRat_eq hfits, Decimal.toRat_eq_zero_iff.mpr hzero, zero_mul]
    rw [if_pos hzero, hq, Nat.floor_zero, Except.ok.injEq, eq_comm]
    exact ⟨fun h => ⟨by positivity, h⟩, fun h => h.2⟩
  · have hq : q.coefficient ≠ 0 := by
      have hlow : 10 ^ (d.leading + decimals) ≤ d.toRat * 10 ^ decimals := by
        rw [zpow_add₀ (by norm_num)]
        exact mul_le_mul_of_nonneg_right (Decimal.zpow_leading_le hzero) (by positivity)
      exact fun h => (hrounding.pos (by decide) hlow).ne' (Decimal.toRat_eq_zero_iff.mpr h)
    have hwide : q.toRat < 10 ^ precision ↔ q.leading < precision := by
      rw [← Decimal.toRat_lt_zpow_iff hq, zpow_natCast]
    have hlarge : (precision : ℤ) ≤ maxLeading := by decide
    rw [if_neg hzero, hwide, Decimal.floor_eq]
    split
    next =>
      simp only [reduceCtorEq, false_iff]
      omega
    next =>
      split
      next =>
        simp only [reduceCtorEq, false_iff]
        omega
      next hleading =>
        rw [Except.ok.injEq, eq_comm, iff_and_self]
        exact fun _ => not_le.mp hleading

/-- What is written is the integer part of the amount at the scale or the integer after it, and
which of the two it is, the rounding decides. -/
theorem floor_rounding {x : ℚ} (h : IsRounding precision x q) (hx : 0 ≤ x)
    (hwide : q.toRat < 10 ^ precision) :
    q.toRat < ⌊x⌋₊ + 1 ∧ ⌊q.toRat⌋₊ = ⌊x⌋₊ ∨
      q.toRat = ⌊x⌋₊ + 1 ∧ ⌊q.toRat⌋₊ = ⌊x⌋₊ + 1 := by
  obtain ⟨hlow, hhigh⟩ := h.floor_le (by decide) hx hwide
  rcases hhigh.lt_or_eq with hlt | heq
  · exact .inl ⟨hlt, (Nat.floor_eq_iff (Decimal.toRat_nonneg q)).mpr ⟨hlow, hlt⟩⟩
  · refine .inr ⟨heq, ?_⟩
    rw [heq, ← Nat.cast_succ, Nat.floor_natCast]

theorem fromDecimal_floor {s : String} (hread : Decimal.read? s = some (.finite negative d))
    (hsign : negative = true → d.coefficient = 0) (hscale : 0 ≤ decimals) :
    ∃ q, IsRounding 80 (d.toRat * 10 ^ decimals) q ∧
      ((∃ output, fromDecimal (.text s) decimals = .ok output) ↔ q.toRat < 10 ^ 80) ∧
      ∀ output, fromDecimal (.text s) decimals = .ok output →
        ∃ n : ℕ, output = Numeral.ofNat n ∧
          (q.toRat < ⌊d.toRat * 10 ^ decimals⌋₊ + 1 ↔
            n ≤ d.toRat * 10 ^ decimals ∧ d.toRat * 10 ^ decimals < n + 1) ∧
          (¬q.toRat < ⌊d.toRat * 10 ^ decimals⌋₊ + 1 →
            q.toRat = n ∧ n = ⌊d.toRat * 10 ^ decimals⌋₊ + 1) ∧
          (Fits 80 (d.toRat * 10 ^ decimals) →
            n ≤ d.toRat * 10 ^ decimals ∧ d.toRat * 10 ^ decimals < n + 1) := by
  obtain ⟨q, hrounding, hok⟩ := fromDecimal_eq_ok_iff (a := .text s) hread hsign hscale
  have hx : 0 ≤ d.toRat * 10 ^ decimals := by
    have := Decimal.toRat_nonneg d
    positivity
  generalize d.toRat * 10 ^ decimals = x at hrounding hx ⊢
  refine ⟨q, hrounding, ⟨fun ⟨output, h⟩ => ((hok output).mp h).1, fun h =>
    ⟨_, (hok _).mpr ⟨h, rfl⟩⟩⟩, fun output houtput => ?_⟩
  obtain ⟨hwide, rfl⟩ := (hok output).mp houtput
  have hbelow : (⌊x⌋₊ : ℚ) ≤ x ∧ x < ⌊x⌋₊ + 1 := ⟨Nat.floor_le hx, Nat.lt_floor_add_one x⟩
  refine ⟨_, rfl, ?_⟩
  rcases floor_rounding hrounding hx hwide with ⟨hlt, hfloor⟩ | ⟨heq, hfloor⟩
  · rw [hfloor]
    exact ⟨iff_of_true hlt hbelow, fun hnot => absurd hlt hnot, fun _ => hbelow⟩
  · have hnext : ((⌊x⌋₊ + 1 : ℕ) : ℚ) = ⌊x⌋₊ + 1 := Nat.cast_succ _
    rw [hfloor, hnext]
    refine ⟨iff_of_false heq.not_lt fun h => absurd hbelow.2 (not_lt.mpr h.1),
      fun _ => ⟨heq, rfl⟩, fun hfits => ?_⟩
    -- without rounding the integer after the amount is not reached
    rw [hrounding.toRat_eq hfits] at heq
    exact absurd hbelow.2 heq.not_lt

/-- One unit of the 81st digit after the point below one. -/
def belowOne : String :=
  String.ofList ('0' :: '.' :: List.replicate 81 '9')

theorem read?_belowOne : Decimal.read? belowOne = some (.finite false ⟨10 ^ 81 - 1, -81⟩) := by
  decide +kernel

theorem fromDecimal_belowOne : fromDecimal (.text belowOne) 6 = .ok "1000000" := by
  unfold fromDecimal
  simp only [Amount.read?, read?_belowOne]
  rfl

theorem toRat_belowOne_lt : Decimal.toRat ⟨10 ^ 81 - 1, -81⟩ * 10 ^ (6 : ℤ) < 10 ^ 6 := by
  norm_num [Decimal.toRat]

theorem eq_of_ofNat_eq {n : ℕ} (h : "1000000" = Numeral.ofNat n) : n = 10 ^ 6 := by
  rw [← Numeral.value_ofNat n, ← h]
  decide

/-- Of 81 nines the last one is rounded away, and with it the carry goes up to the point. -/
theorem fromDecimal_floor_of_belowOne :
    Decimal.read? belowOne = some (.finite false ⟨10 ^ 81 - 1, -81⟩) ∧ (0 : ℤ) ≤ 6 ∧
      fromDecimal (.text belowOne) 6 = .ok "1000000" ∧
      ∃ q, IsRounding 80 (Decimal.toRat ⟨10 ^ 81 - 1, -81⟩ * 10 ^ (6 : ℤ)) q ∧
        q.toRat = 10 ^ 6 := by
  obtain ⟨q, hrounding, -, hfloor⟩ :=
    fromDecimal_floor read?_belowOne (fun h => absurd h (by decide)) (by decide : (0 : ℤ) ≤ 6)
  refine ⟨read?_belowOne, by decide, fromDecimal_belowOne, q, hrounding, ?_⟩
  obtain ⟨n, hn, htruncated, hcarried, -⟩ := hfloor _ fromDecimal_belowOne
  obtain rfl := eq_of_ofNat_eq hn
  rw [Nat.cast_pow, Nat.cast_ofNat] at htruncated hcarried
  have hnot := fun h => not_lt.mpr (htruncated.mp h).1 toRat_belowOne_lt
  exact (hcarried hnot).1

/-- More can be written than the amount is. -/
theorem not_fromDecimal_le :
    ¬∀ s d decimals, Decimal.read? s = some (.finite false d) → 0 ≤ decimals →
      ∀ output, fromDecimal (.text s) decimals = .ok output →
        ∃ n : ℕ, output = Numeral.ofNat n ∧
          n ≤ d.toRat * 10 ^ decimals ∧ d.toRat * 10 ^ decimals < n + 1 := by
  intro h
  obtain ⟨n, hn, hle, -⟩ := h _ _ 6 read?_belowOne (by decide) _ fromDecimal_belowOne
  rw [eq_of_ofNat_eq hn, Nat.cast_pow, Nat.cast_ofNat] at hle
  exact absurd toRat_belowOne_lt (not_lt.mpr hle)

/-! ## Back and forth -/

/-- An amount that is a number of at most 80 digits at the scale is written exactly. -/
theorem fromDecimal_eq_ofNat {n : ℕ} (hread : a.read? = some (.finite false d))
    (hscale : 0 ≤ decimals) (hn : d.toRat * 10 ^ decimals = n) (hwide : n < 10 ^ precision) :
    fromDecimal a decimals = .ok (Numeral.ofNat n) := by
  obtain ⟨q, hrounding, hok⟩ :=
    fromDecimal_eq_ok_iff hread (fun h => absurd h (by decide)) hscale
  have hq : q.toRat = n := by
    rw [hn] at hrounding
    exact hrounding.toRat_eq (Decimal.fits_natCast (by decide) hwide.le)
  refine (hok _).mpr ⟨?_, by rw [hq, Nat.floor_natCast]⟩
  rw [hq]
  exact_mod_cast hwide

/-- A number divided by the power of ten of at most 18 decimals does not have too many digits to
be read. -/
theorem minExponent_le_divide (n : ℕ) {places : ℕ} (hmost : places ≤ 18) :
    Decimal.minExponent ≤
      (Decimal.divide precision (.ofNat n) (.ofNat (10 ^ places))).exponent := by
  have hlow : _ ≤ (Decimal.divide precision _ _).exponent :=
    Decimal.le_exponent_divide (.ofNat n) (.ofNat (10 ^ places))
  have hlength : Numeral.length (10 ^ places) ≤ 19 :=
    (Numeral.length_le_iff (by decide)).mpr (Nat.pow_lt_pow_right (by decide) (by omega))
  have hprecision : precision = 80 := rfl
  simp only [Decimal.ofNat, hprecision] at hlow ⊢
  unfold Decimal.minExponent
  omega

/-- What a numeral of at most 80 digits means, in plain notation, is written by the numeral. -/
theorem fromDecimal_plain (hv : IsShort v) (hwide : value v.toList < 10 ^ precision)
    (hscale : 0 ≤ decimals) (hmost : decimals ≤ 18) (name : String) :
    ∃ q, toDecimal (.str v) decimals name = .ok q ∧
      fromDecimal (.text q.plain) decimals =
        .ok (String.ofList (Numeral.canonical v.toList)) := by
  refine ⟨_, toDecimal_eq hv hscale name, ?_⟩
  have hexact := toRat_divide_pow hwide decimals.toNat
  rw [← Decimal.ten_zpow_of_nonneg hscale] at hexact
  have hplaces := minExponent_le_divide (value v.toList) (Int.toNat_le.mpr hmost)
  generalize Decimal.divide precision (.ofNat (value v.toList)) (.ofNat (10 ^ decimals.toNat)) = q
    at hexact hplaces ⊢
  have hsmall : q.toRat < 10 ^ (precision : ℤ) := by
    have hone : (1 : ℚ) ≤ 10 ^ decimals := one_le_zpow₀ (by norm_num) hscale
    have hvalue : (value v.toList : ℚ) < 10 ^ precision := by exact_mod_cast hwide
    rw [hexact, zpow_natCast]
    exact (div_le_self (Nat.cast_nonneg _) hone).trans_lt hvalue
  obtain ⟨d, hread, hd⟩ := Decimal.exists_read?_plain hplaces hsmall (by decide)
  have hinteger : d.toRat * 10 ^ decimals = value v.toList := by
    rw [hd, hexact, div_mul_cancel₀ _ (by positivity)]
  rw [fromDecimal_eq_ofNat (a := .text q.plain) hread hscale hinteger hwide, Numeral.ofNat,
    Numeral.toDigits_value hv.isNumeral.2]

/-- An amount in plain notation with no more digits after the point than the scale has. -/
theorem toDecimal_fromDecimal {text : String} {whole fraction : List Char}
    (h : IsPlain text whole fraction) (hplaces : (fraction.length : ℤ) ≤ decimals)
    (hmost : decimals ≤ 18)
    (hwide : (ofDigits whole fraction).toRat * 10 ^ decimals < 10 ^ precision) (name : String) :
    ∃ output, fromDecimal (.text text) decimals = .ok output ∧
      ∃ q, toDecimal (.str output) decimals name = .ok q ∧
        q.toRat = (ofDigits whole fraction).toRat := by
  have hscale : 0 ≤ decimals := by omega
  have hone : (1 : ℚ) ≤ 10 ^ decimals := one_le_zpow₀ (by norm_num) hscale
  have hsmall : (ofDigits whole fraction).toRat < 10 ^ (precision : ℤ) := by
    rw [zpow_natCast]
    exact (le_mul_of_one_le_right (Decimal.toRat_nonneg _) hone).trans_lt hwide
  have hexponent : (ofDigits whole fraction).exponent = -(fraction.length : ℤ) := rfl
  have hread := Decimal.read?_of_isPlain h <| Decimal.inBounds_of_toRat_lt
    (by unfold Decimal.minExponent; omega) (by unfold Decimal.maxLeading; omega) hsmall (by decide)
  have hinteger := Decimal.toRat_ofDigits_mul whole hplaces
  generalize value (whole ++ fraction) * 10 ^ (decimals - fraction.length).toNat = n at hinteger
  have hn : n < 10 ^ precision := by
    rw [hinteger] at hwide
    exact_mod_cast hwide
  refine ⟨_, fromDecimal_eq_ofNat (a := .text text) hread hscale hinteger hn, ?_⟩
  have hshort : IsShort (Numeral.ofNat n) :=
    Numeral.isShort_ofNat (hn.trans (Nat.pow_lt_pow_right (by decide) (by decide)))
  obtain ⟨q, hq, hexact⟩ := toDecimal_exact hshort (by rwa [Numeral.value_ofNat]) hscale name
  refine ⟨q, hq, ?_⟩
  rw [hexact, Numeral.value_ofNat, ← hinteger, mul_div_cancel_right₀ _ (by positivity)]

theorem fromDecimal_toDecimal (hscale : 0 ≤ decimals) (hmost : decimals ≤ 18) (name : String) :
    (∀ v, IsShort v → value v.toList < 10 ^ 80 →
      ∃ q, toDecimal (.str v) decimals name = .ok q ∧
        fromDecimal (.text q.plain) decimals =
          .ok (String.ofList (Numeral.canonical v.toList))) ∧
    ∀ text whole fraction, IsPlain text whole fraction → (fraction.length : ℤ) ≤ decimals →
      (ofDigits whole fraction).toRat * 10 ^ decimals < 10 ^ 80 →
        ∃ output, fromDecimal (.text text) decimals = .ok output ∧
          ∃ q, toDecimal (.str output) decimals name = .ok q ∧
            q.toRat = (ofDigits whole fraction).toRat :=
  ⟨fun _ hv hwide => fromDecimal_plain hv hwide hscale hmost name,
    fun _ _ _ h hplaces hwide => toDecimal_fromDecimal h hplaces hmost hwide name⟩

theorem fromDecimal_toDecimal_of_ratio :
    (0 : ℤ) ≤ 6 ∧ (6 : ℤ) ≤ 18 ∧
      (IsShort "0062500" ∧ value "0062500".toList < 10 ^ 80 ∧
        ∃ q, toDecimal (.str "0062500") 6 "value" = .ok q ∧
          fromDecimal (.text q.plain) 6 = .ok "62500") ∧
      IsPlain ".0625" [] ['0', '6', '2', '5'] ∧ (4 : ℤ) ≤ 6 ∧
        ∃ output, fromDecimal (.text ".0625") 6 = .ok output ∧
          ∃ q, toDecimal (.str output) 6 "value" = .ok q ∧ q.toRat = 625 * 10 ^ (-4 : ℤ) := by
  obtain ⟨hto, hfrom⟩ :=
    fromDecimal_toDecimal (by decide : (0 : ℤ) ≤ 6) (by decide) "value"
  have hshort : IsShort "0062500" := by decide
  have hwide : value "0062500".toList < 10 ^ 80 := by decide
  have hplain : IsPlain ".0625" [] ['0', '6', '2', '5'] :=
    ⟨.inl rfl, List.all_eq_true.mp rfl, by decide⟩
  have hdigits : ofDigits [] ['0', '6', '2', '5'] = ⟨625, -4⟩ := rfl
  refine ⟨by decide, by decide, ⟨hshort, hwide, hto _ hshort hwide⟩, hplain, by decide, ?_⟩
  have hrat : Decimal.toRat ⟨625, -4⟩ = 625 * 10 ^ (-4 : ℤ) := by simp [Decimal.toRat]
  obtain ⟨output, houtput, q, hq, hexact⟩ :=
    hfrom ".0625" [] ['0', '6', '2', '5'] hplain (by decide) (by rw [hdigits, hrat]; norm_num)
  exact ⟨output, houtput, q, hq, hexact.trans (hdigits ▸ hrat)⟩

end FixedPoint

end PerpRollout
