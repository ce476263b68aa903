import PerpRollout.Proofs.FixedPoint
import PerpRollout.Proofs.Rules.Resolved
import PerpRollout.Record.Derived

/-!
# Values derived from a record

A record that nothing is wrong with has numerals that are short enough to be read and within
their bounds (`Rules.isBounded_of_check`). From such numerals the constant product, the opening
price and the largest leverage can be derived, the last two unless it is divided by zero; the
leverage is one over the margin, rounded to 28 digits, so it is between one and the scale and
falls as the margin grows (`Engine.maxLeverage_bounds`, `Engine.maxLeverage_antitone`).

The reserves are read as literals, which are written in more ways than numerals; a numeral is the
literal for its own number (`Numeral.readLiteral_of_isShort`).
-/

namespace PerpRollout

open Decimal (Fits IsRounding)
open Numeral (IsShort value)
open Place (InRange IsRatio IsReserve)

/-! ## Numerals as literals -/

namespace Numeral

variable {s : String} {c : Char} {cs : List Char}

theorem digitValue?_of_isDigit (h : c.isDigit = true) :
    Text.digitValue? c = some (c.toNat - '0'.toNat) :=
  forall_isDigit (P := fun c => Text.digitValue? c = some (c.toNat - '0'.toNat)) (by decide) h

/-- Digits are scanned to their end. -/
theorem scanDigits_of_forall (h : ∀ c ∈ cs, c.isDigit = true) {gap : Bool}
    (hgap : gap = true → cs ≠ []) :
    scanDigits gap cs = some (cs.map fun c => c.toNat - '0'.toNat, []) := by
  induction cs generalizing gap with
  | nil =>
      cases gap with
      | false => rfl
      | true => exact absurd rfl (hgap rfl)
  | cons c cs ih =>
      have hrest : scanDigits false cs = _ :=
        ih (fun d hd => h d (List.mem_cons_of_mem c hd)) (by simp)
      rw [scanDigits, digitValue?_of_isDigit (h c List.mem_cons_self)]
      simp only [hrest]
      rfl

/-- In front of a digit there is neither a blank nor a sign. -/
theorem splitSign_of_isDigit (h : c.isDigit = true) :
    splitSign ((c :: cs).dropWhile isLiteralBlank) = (false, c :: cs) := by
  have hblank : isLiteralBlank c = false :=
    forall_isDigit (P := fun c => isLiteralBlank c = false) (by decide) h
  rw [List.dropWhile_cons_of_neg (Bool.eq_false_iff.mp hblank)]
  unfold splitSign
  split
  next hc =>
    cases hc
    cases h
  next hc =>
    cases hc
    cases h
  next => rfl

/-- A numeral is a literal for its number. -/
theorem readLiteral_of_isShort (hs : IsShort s) : readLiteral s = .integer (value s.toList) := by
  obtain ⟨⟨hne, hdigits⟩, hlength⟩ := hs
  rw [← String.length_toList] at hlength
  obtain ⟨c, cs, hcs⟩ := List.exists_cons_of_ne_nil fun h => hne (String.toList_eq_nil_iff.mp h)
  have hscan : scanDigits true s.toList = _ :=
    scanDigits_of_forall hdigits fun _ => hcs ▸ List.cons_ne_nil c cs
  have hsign : splitSign (s.toList.dropWhile isLiteralBlank) = (false, s.toList) := by
    rw [hcs] at hdigits ⊢
    exact splitSign_of_isDigit (hdigits c List.mem_cons_self)
  unfold readLiteral
  rw [hsign]
  dsimp only
  rw [hscan]
  simp only [List.length_map, Nat.not_lt.mpr hlength, if_false, List.all_nil, Bool.not_true,
    Bool.false_eq_true, List.foldl_map]
  rfl

end Numeral

/-! ## Values derived from numerals -/

namespace Vamm

theorem reserve_eq {s : String} (hs : IsShort s) : reserve s = .ok (value s.toList) := by
  rw [reserve, Numeral.readLiteral_of_isShort hs]

variable {v : Vamm} (hquote : IsShort v.quoteReserve) (hbase : IsShort v.baseReserve)

include hquote hbase

theorem initialK_eq :
    v.initialK = .ok ((value v.quoteReserve.toList * value v.baseReserve.toList : ℕ) : ℤ) := by
  rw [initialK, reserve_eq hquote, reserve_eq hbase]
  rfl

theorem exists_initialSpotPrice_iff :
    (∃ price, v.initialSpotPrice = .ok price) ↔ value v.baseReserve.toList ≠ 0 := by
  constructor
  · rintro ⟨price, hprice⟩ hzero
    rw [initialSpotPrice, FixedPoint.ratio_of_zero hquote hbase hzero] at hprice
    cases hprice
  · intro hzero
    exact ⟨_, FixedPoint.ratio_eq hquote hbase hzero⟩

end Vamm

/-- A ratio at the scale of decimals that a contract takes. -/
structure IsScaled (decimals : ℤ) (s : String) : Prop where
  inRange : InRange decimals
  isShort : IsShort s
  le_scale : value s.toList ≤ 10 ^ decimals.toNat

namespace IsScaled

variable {decimals : ℤ} {s : String} (h : IsScaled decimals s)

include h

theorem value_lt : value s.toList < 10 ^ FixedPoint.precision := by
  have hplaces : decimals.toNat < FixedPoint.precision := by
    have := h.inRange.2
    unfold FixedPoint.precision
    omega
  exact h.le_scale.trans_lt (Nat.pow_lt_pow_right (by decide) hplaces)

theorem cast_value_le : (value s.toList : ℚ) ≤ 10 ^ decimals := by
  rw [Decimal.ten_zpow_of_nonneg h.inRange.1]
  exact_mod_cast h.le_scale

/-- The ratio is read exactly. -/
theorem exists_toDecimal (name : String) :
    ∃ q, FixedPoint.toDecimal (.str s) decimals name = .ok q ∧
      q.toRat = value s.toList / 10 ^ decimals :=
  FixedPoint.toDecimal_exact h.isShort h.value_lt h.inRange.1 name

theorem div_le_one : (value s.toList : ℚ) / 10 ^ decimals ≤ 1 :=
  div_le_one_of_le₀ h.cast_value_le (by positivity)

end IsScaled

namespace Engine

section

variable {e : Engine} (h : IsScaled e.decimals e.initialMarginRatio)

include h

theorem maxLeverage_of_zero (hzero : value e.initialMarginRatio.toList = 0) :
    e.maxLeverage = refuse .zeroMargin := by
  obtain ⟨margin, hmargin, hexact⟩ := h.exists_toDecimal "initial_margin_ratio"
  rw [hzero, Nat.cast_zero, zero_div, Decimal.toRat_eq_zero_iff] at hexact
  rw [maxLeverage, hmargin, ok_bind, if_pos hexact]

/-- The largest leverage is one over the margin. -/
theorem exists_maxLeverage (hzero : value e.initialMarginRatio.toList ≠ 0) :
    ∃ leverage, e.maxLeverage = .ok leverage ∧
      IsRounding leveragePrecision (10 ^ e.decimals / value e.initialMarginRatio.toList)
        leverage := by
  obtain ⟨margin, hmargin, hexact⟩ := h.exists_toDecimal "initial_margin_ratio"
  have hnonzero : margin.toRat ≠ 0 := by
    have : (value e.initialMarginRatio.toList : ℚ) ≠ 0 := by exact_mod_cast hzero
    rw [hexact]
    positivity
  have hcoefficient : margin.coefficient ≠ 0 :=
    fun hc => hnonzero (Decimal.toRat_eq_zero_iff.mpr hc)
  have hrounding := Decimal.isRounding_divide (by decide : 1 < leveragePrecision) (.ofNat 1)
    hcoefficient
  rw [Decimal.toRat_ofNat, hexact, Nat.cast_one, one_div_div] at hrounding
  exact ⟨_, by rw [maxLeverage, hmargin, ok_bind, if_neg hcoefficient]; rfl, hrounding⟩

theorem exists_maxLeverage_iff :
    (∃ leverage, e.maxLeverage = .ok leverage) ↔ value e.initialMarginRatio.toList ≠ 0 := by
  constructor
  · rintro ⟨leverage, hleverage⟩ hzero
    rw [maxLeverage_of_zero h hzero] at hleverage
    cases hleverage
  · intro hzero
    obtain ⟨leverage, hleverage, -⟩ := exists_maxLeverage h hzero
    exact ⟨leverage, hleverage⟩

/-- Rounding does not leave the bounds. -/
theorem maxLeverage_bounds {leverage : Decimal} (hleverage : e.maxLeverage = .ok leverage) :
    1 ≤ leverage.toRat ∧ leverage.toRat ≤ 10 ^ e.decimals := by
  have hzero := (exists_maxLeverage_iff h).mp ⟨leverage, hleverage⟩
  obtain ⟨leverage', hleverage', hrounding⟩ := exists_maxLeverage h hzero
  rw [hleverage] at hleverage'
  cases hleverage'
  have hone : (1 : ℚ) ≤ value e.initialMarginRatio.toList := by
    exact_mod_cast Nat.one_le_iff_ne_zero.mpr hzero
  have hlow : (1 : ℚ) ≤ 10 ^ e.decimals / value e.initialMarginRatio.toList :=
    (one_le_div (by linarith)).mpr h.cast_value_le
  have hhigh : (10 : ℚ) ^ e.decimals / value e.initialMarginRatio.toList ≤ 10 ^ e.decimals :=
    div_le_self (by positivity) hone
  have hunit : Fits leveragePrecision (1 : ℕ) := Decimal.fits_natCast (by decide) (by decide)
  rw [Nat.cast_one] at hunit
  exact ⟨hrounding.le_toRat hunit hlow,
    hrounding.toRat_le (Decimal.fits_zpow (by decide) e.decimals) hhigh⟩

end

/-- At one scale a larger margin allows no larger leverage. -/
theorem maxLeverage_antitone {e e' : Engine} (h : IsScaled e.decimals e.initialMarginRatio)
    (h' : IsScaled e'.decimals e'.initialMarginRatio) (hdecimals : e'.decimals = e.decimals)
    (hzero : value e.initialMarginRatio.toList ≠ 0)
    (hle : value e.initialMarginRatio.toList ≤ value e'.initialMarginRatio.toList) :
    ∃ leverage leverage', e.maxLeverage = .ok leverage ∧ e'.maxLeverage = .ok leverage' ∧
      leverage'.toRat ≤ leverage.toRat := by
  have hpos := Nat.pos_of_ne_zero hzero
  obtain ⟨leverage, hleverage, hrounding⟩ := exists_maxLeverage h hzero
  obtain ⟨leverage', hleverage', hrounding'⟩ := exists_maxLeverage h' (hpos.trans_le hle).ne'
  refine ⟨leverage, leverage', hleverage, hleverage', hrounding'.mono (by decide) hrounding ?_⟩
  rw [hdecimals]
  exact div_le_div_of_nonneg_left (by positivity) (by exact_mod_cast hpos) (by exact_mod_cast hle)

end Engine

/-! ## Records that nothing is wrong with -/

/-- The numbers that values are derived from are within their bounds. -/
structure Record.IsBounded (r : Record) : Prop where
  margin : IsScaled r.engine.decimals r.engine.initialMarginRatio
  toll : IsScaled r.vamm.decimals r.vamm.tollRatio
  quote : IsShort r.vamm.quoteReserve
  base : IsShort r.vamm.baseReserve
  quoteReserve : IsReserve r.vamm.quoteReserve
  baseReserve : IsReserve r.vamm.baseReserve

namespace Rules

variable {r : Record} {env : Option String}

/-- A check finds nothing whatever the environment is called. -/
theorem check_template_eq_nil (h : check r env .template = .ok []) (env' : Option String) :
    check r env' .template = .ok [] :=
  (check_eq_nil_iff rfl).mpr ((check_eq_nil_iff rfl).mp h)

/-- Slots that are set play no part in a check by the template. -/
theorem check_template_setAll (env : Option String) (r : Record) (steps : List (Module × String)) :
    check (r.setAll steps) env .template = check r env .template := by
  induction steps generalizing r with
  | nil => rfl
  | cons step steps ih =>
      exact (ih (r.setAddress step.1 step.2)).trans
        (check_template_setAddress env r step.1 step.2)

theorem isBounded_of_check (h : check r env .template = .ok []) : r.IsBounded := by
  obtain ⟨hlegible, hobeys⟩ := (check_eq_nil_iff rfl).mp h
  have hshort {s : String} (hs : s ∈ r.numerals) (hnumeral : IsNumeral s) : IsShort s :=
    ⟨hnumeral, hlegible.numerals s hs hnumeral⟩
  have hscaled {decimals : ℤ} {s : String} (hdecimals : InRange decimals) (hs : s ∈ r.numerals)
      (hratio : IsRatio decimals s) : IsScaled decimals s :=
    ⟨hdecimals, hshort hs hratio.1, hratio.2 hdecimals.1⟩
  exact
    { margin := hscaled (hobeys .engineDecimals) (by simp [Record.numerals]) (hobeys .initialMargin)
      toll := hscaled (hobeys .vammDecimals).1 (by simp [Record.numerals]) (hobeys .toll)
      quote := hshort (by simp [Record.numerals]) (hobeys .quoteReserve).1.1
      base := hshort (by simp [Record.numerals]) (hobeys .baseReserve).1.1
      quoteReserve := (hobeys .quoteReserve).1
      baseReserve := (hobeys .baseReserve).1 }

end Rules

end PerpRollout
