import PerpRollout.Decimal.Reader
import PerpRollout.Proofs.Decimal.Value

/-!
# Plain notation

A number in plain notation is written in digits, with a decimal point among them or without
(`IsPlain`). It is read as the decimal whose coefficient are all the digits (`read?_of_isPlain`),
and what `plain` writes is read back as the same number (`exists_read?_plain`).
-/

namespace PerpRollout.Decimal

open Numeral (value)

/-- A number is written with these digits before the decimal point and these after it; without
digits after it the point may be left out. -/
structure IsPlain (text : String) (whole fraction : List Char) : Prop where
  toList_eq : text.toList = whole ++ '.' :: fraction ∨ fraction = [] ∧ text.toList = whole
  isDigit : ∀ c ∈ whole ++ fraction, c.isDigit = true
  ne_nil : whole ++ fraction ≠ []

/-- The decimal with these digits before the point and these after it. -/
def ofDigits (whole fraction : List Char) : Decimal :=
  ⟨value (whole ++ fraction), -fraction.length⟩

/-! ## Reading -/

/-- The reader takes the character for itself, and for no part of a number but its digits. -/
structure IsLiteral (c : Char) : Prop where
  isBlank : Text.isBlank c = false
  underscore : (c != '_') = true
  plainDigit_eq : plainDigit c = c
  lowerLetter_eq : lowerLetter c = c
  exponent : (c != 'e' && c != 'E') = true
  sign : c ≠ '-' ∧ c ≠ '+'
  name : c ≠ 'i' ∧ c ≠ 'n' ∧ c ≠ 's'

theorem isLiteral_iff (c : Char) :
    IsLiteral c ↔ Text.isBlank c = false ∧ (c != '_') = true ∧ plainDigit c = c ∧
      lowerLetter c = c ∧ (c != 'e' && c != 'E') = true ∧ (c ≠ '-' ∧ c ≠ '+') ∧
      c ≠ 'i' ∧ c ≠ 'n' ∧ c ≠ 's' :=
  ⟨fun ⟨h1, h2, h3, h4, h5, h6, h7⟩ => ⟨h1, h2, h3, h4, h5, h6, h7⟩,
    fun ⟨h1, h2, h3, h4, h5, h6, h7⟩ => ⟨h1, h2, h3, h4, h5, h6, h7⟩⟩

instance : DecidablePred IsLiteral :=
  fun c => decidable_of_iff _ (isLiteral_iff c).symm

theorem isLiteral_of_isDigit {c : Char} (h : c.isDigit = true) : IsLiteral c :=
  Numeral.forall_isDigit (by decide) h

variable {text : String} {whole fraction : List Char}

theorem IsPlain.isLiteral (h : IsPlain text whole fraction) : ∀ c ∈ text.toList, IsLiteral c := by
  have hdigits := fun c hc => isLiteral_of_isDigit (h.isDigit c hc)
  rw [List.forall_mem_append] at hdigits
  rcases h.toList_eq with htext | ⟨-, htext⟩
  · have hpoint : IsLiteral '.' := by decide
    rw [htext, List.forall_mem_append, List.forall_mem_cons]
    exact ⟨hdigits.1, hpoint, hdigits.2⟩
  · rw [htext]
    exact hdigits.1

theorem significant_of_isPlain (h : IsPlain text whole fraction) :
    significant text = text.toList := by
  have hchars := h.isLiteral
  have hfilter : text.toList.filter (· != '_') = text.toList :=
    List.filter_eq_self.mpr fun c hc => (hchars c hc).underscore
  have hmap : text.toList.map plainDigit = text.toList :=
    (List.map_congr_left fun c hc => (hchars c hc).plainDigit_eq).trans (List.map_id _)
  rw [significant, Text.trim_eq_self fun c hc => (hchars c hc).1, hfilter, hmap]

theorem readNumber?_of_isPlain (h : IsPlain text whole fraction) :
    readNumber? text.toList = some (ofDigits whole fraction) := by
  have hchars := h.isLiteral
  have hall : text.toList.span (fun c => c != 'e' && c != 'E') = (text.toList, []) :=
    span_of_forall fun c hc => (hchars c hc).exponent
  have hdigit {c : Char} (hc : c ∈ whole ++ fraction) : (c != '.') = true := by
    rw [bne_iff_ne]
    rintro rfl
    exact absurd (h.isDigit '.' hc) (by decide)
  have hpoint : ∃ rest, text.toList.span (· != '.') = (whole, rest) ∧ rest.drop 1 = fraction := by
    have hwhole : ∀ c ∈ whole, (c != '.') = true :=
      fun c hc => hdigit (List.mem_append_left _ hc)
    rcases h.toList_eq with htext | ⟨rfl, htext⟩
    · exact ⟨'.' :: fraction, by rw [htext, span_append hwhole (by simp)], rfl⟩
    · exact ⟨[], by rw [htext, span_of_forall hwhole], rfl⟩
  obtain ⟨rest, hspan, hrest⟩ := hpoint
  have hnumeral : Numeral.isNumeral (whole ++ fraction) = true := by
    have hascii : (whole ++ fraction).all Text.isAsciiDigit = true :=
      List.all_eq_true.mpr fun c hc => (Numeral.isAsciiDigit_iff c).mpr (h.isDigit c hc)
    simp only [Numeral.isNumeral, hascii, List.isEmpty_eq_false_iff.mpr h.ne_nil]
    rfl
  unfold readNumber?
  simp only [hall, hspan, hrest, hnumeral, if_true, ofDigits]
  exact congrArg (fun exponent => some (Decimal.mk _ exponent)) (Int.zero_sub _)

/-- Plain notation has no sign, no exponent and no name of an infinity in it. -/
theorem read?_of_isPlain (h : IsPlain text whole fraction)
    (hbounds : inBounds (ofDigits whole fraction) = true) :
    read? text = some (.finite false (ofDigits whole fraction)) := by
  have hchars := h.isLiteral
  have hlower : text.toList.map lowerLetter = text.toList :=
    (List.map_congr_left fun c hc => (hchars c hc).lowerLetter_eq).trans (List.map_id _)
  have hfirst {c : Char} {rest : List Char} (htext : text.toList = c :: rest) : IsLiteral c :=
    hchars c (htext ▸ List.mem_cons_self)
  have hunsigned : readUnsigned? false text.toList =
      some (.finite false (ofDigits whole fraction)) := by
    unfold readUnsigned?
    rw [hlower]
    split
    next htext => exact absurd rfl (hfirst htext).name.1
    next htext => exact absurd rfl (hfirst htext).name.2.1
    next htext => exact absurd rfl (hfirst htext).name.2.2
    next => simp only [readNumber?_of_isPlain h, hbounds, if_true]
  unfold read?
  rw [significant_of_isPlain h]
  split
  next htext => exact absurd rfl (hfirst htext).sign.1
  next htext => exact absurd rfl (hfirst htext).sign.2
  next => exact hunsigned

variable (whole) in
/-- At a scale with as many digits as there are after the point, the digits are an integer. -/
theorem toRat_ofDigits_mul {k : ℤ} (h : (fraction.length : ℤ) ≤ k) :
    (ofDigits whole fraction).toRat * 10 ^ k =
      ((value (whole ++ fraction) * 10 ^ (k - fraction.length).toNat : ℕ) : ℚ) := by
  have hexponent : -(fraction.length : ℤ) + k = 0 + ((k - fraction.length).toNat : ℤ) := by omega
  rw [ofDigits, toRat_mul_zpow, hexponent, ← toRat_mul_pow, ← toRat_ofNat]
  rfl

/-- A number that is small enough, with not too many digits after the point. -/
theorem inBounds_of_toRat_lt {d : Decimal} {k : ℤ} (hlow : minExponent ≤ d.exponent)
    (hhigh : d.exponent ≤ maxLeading) (hlt : d.toRat < 10 ^ k) (hk : k ≤ maxLeading) :
    inBounds d = true := by
  rw [inBounds, Bool.and_eq_true, decide_eq_true_eq, decide_eq_true_eq]
  refine ⟨hlow, ?_⟩
  split
  next => exact hhigh
  next hzero => exact ((toRat_lt_zpow_iff hzero).mp hlt).le.trans hk

/-! ## Writing -/

/-- What is written of a decimal is in plain notation. -/
theorem isPlain_plain (d : Decimal) :
    ∃ whole fraction, IsPlain d.plain whole fraction ∧
      ofDigits whole fraction =
        ⟨d.coefficient * 10 ^ d.exponent.toNat, -((-d.exponent).toNat : ℤ)⟩ := by
  have hdigits : ∀ c ∈ Nat.toDigits 10 d.coefficient, c.isDigit = true :=
    fun c hc => Numeral.isDigit_of_mem_toDigits hc
  have hzeros (k : ℕ) : ∀ c ∈ List.replicate k '0', c.isDigit = true := by
    intro c hc
    rw [List.eq_of_mem_replicate hc]
    decide
  unfold plain
  dsimp only
  split
  next hexponent =>
    have hplaces : (-d.exponent).toNat = 0 := by omega
    split
    next hzero =>
      refine ⟨['0'], [], ⟨.inr ⟨rfl, rfl⟩, List.all_eq_true.mp rfl, by decide⟩, ?_⟩
      rw [hplaces, hzero, Nat.zero_mul]
      rfl
    next =>
      refine ⟨Nat.toDigits 10 d.coefficient ++ List.replicate d.exponent.toNat '0', [],
        ⟨.inr ⟨rfl, String.toList_ofList⟩, ?_, ?_⟩, ?_⟩
      · rw [List.append_nil]
        exact List.forall_mem_append.mpr ⟨hdigits, hzeros _⟩
      · simp
      · rw [ofDigits, List.append_nil, Numeral.value_append_replicate_zero,
          Numeral.value_toDigits, hplaces]
        rfl
  next hexponent =>
    generalize hpadded : List.replicate
      ((-d.exponent).toNat + 1 - (Nat.toDigits 10 d.coefficient).length) '0' ++
        Nat.toDigits 10 d.coefficient = padded
    have hlength : (-d.exponent).toNat + 1 ≤ padded.length := by
      rw [← hpadded, List.length_append, List.length_replicate]
      omega
    have hall : ∀ c ∈ padded, c.isDigit = true := by
      rw [← hpadded]
      exact List.forall_mem_append.mpr ⟨hzeros _, hdigits⟩
    refine ⟨padded.take (padded.length - (-d.exponent).toNat),
      padded.drop (padded.length - (-d.exponent).toNat), ⟨.inl String.toList_ofList, ?_, ?_⟩, ?_⟩
    · rwa [List.take_append_drop]
    · rw [List.take_append_drop]
      intro hnil
      rw [hnil] at hlength
      exact absurd hlength (by simp)
    · have hpower : d.exponent.toNat = 0 := by omega
      have hplaces : padded.length - (padded.length - (-d.exponent).toNat) =
          (-d.exponent).toNat := by omega
      rw [ofDigits, List.take_append_drop, ← hpadded, Numeral.value_replicate_zero_append,
        Numeral.value_toDigits, hpadded, List.length_drop, hplaces, hpower, Nat.pow_zero,
        Nat.mul_one]

/-- What is written of a decimal is read back as the same number. -/
theorem exists_read?_plain {d : Decimal} {k : ℤ} (hlow : minExponent ≤ d.exponent)
    (hlt : d.toRat < 10 ^ k) (hk : k ≤ maxLeading) :
    ∃ d', read? d.plain = some (.finite false d') ∧ d'.toRat = d.toRat := by
  obtain ⟨whole, fraction, hplain, hdigits⟩ := isPlain_plain d
  have hsame : (ofDigits whole fraction).toRat = d.toRat := by
    have hexponent : -((-d.exponent).toNat : ℤ) + (d.exponent.toNat : ℤ) = d.exponent := by omega
    rw [hdigits, toRat_mul_pow, hexponent]
  refine ⟨_, read?_of_isPlain hplain (inBounds_of_toRat_lt ?_ ?_ (hsame ▸ hlt) hk), hsame⟩
  · rw [hdigits]
    have : minExponent ≤ 0 := by decide
    dsimp only
    omega
  · rw [ofDigits]
    have : (0 : ℤ) ≤ maxLeading := by decide
    dsimp only
    omega

end PerpRollout.Decimal
