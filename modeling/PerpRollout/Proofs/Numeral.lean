import Mathlib.Algebra.Group.Nat.Defs
import Mathlib.Data.List.TakeDrop
import Mathlib.Data.List.TakeWhile
import PerpRollout.Numeral.Basic

/-!
# Numerals and the limit on their digits

A numeral has at least one digit and nothing else (`IsNumeral`). Its number is below
the power of ten of its length (`Numeral.value_lt`), so the number of a numeral within
the limit can be written again, with no more digits than it was read from: those that are
left when the zeros at its front are taken away (`Numeral.toDigits_value`).
-/

namespace PerpRollout

/-! ## Characters up to a mark -/

/-- What comes first is split off up to the mark that follows it. -/
theorem span_append {α : Type} {p : α → Bool} {before after : List α}
    (hbefore : ∀ a ∈ before, p a = true) (hafter : ∀ a ∈ after.head?, p a = false) :
    (before ++ after).span p = (before, after) := by
  rw [List.span_eq_takeWhile_dropWhile, List.takeWhile_append_of_pos hbefore,
    List.dropWhile_append_of_pos hbefore]
  cases after with
  | nil => simp
  | cons a after => simp [hafter a rfl]

theorem span_of_forall {α : Type} {p : α → Bool} {as : List α} (h : ∀ a ∈ as, p a = true) :
    as.span p = (as, []) := by
  rw [List.span_eq_takeWhile_dropWhile, List.takeWhile_eq_self_iff.mpr h,
    List.dropWhile_eq_nil_iff.mpr h]

/-! ## Numerals -/

/-- A text of the digits `0` to `9`, with at least one of them. -/
def IsNumeral (s : String) : Prop :=
  s ≠ "" ∧ ∀ c ∈ s.toList, c.isDigit = true

namespace Numeral

theorem isAsciiDigit_iff (c : Char) : Text.isAsciiDigit c = true ↔ c.isDigit = true := by
  rw [Text.isAsciiDigit, Bool.and_eq_true, decide_eq_true_eq, decide_eq_true_eq,
    Char.isDigit_iff_toNat]
  rfl

theorem isNumeral_iff (s : String) : isNumeral s.toList = true ↔ IsNumeral s := by
  simp [isNumeral, IsNumeral, isAsciiDigit_iff]

instance : DecidablePred IsNumeral :=
  fun s => decidable_of_iff _ (isNumeral_iff s)

/-- A numeral that is short enough to be read. -/
structure IsShort (s : String) : Prop where
  isNumeral : IsNumeral s
  length_le : s.length ≤ digitLimit

instance : DecidablePred IsShort := fun s =>
  decidable_of_iff (IsNumeral s ∧ s.length ≤ digitLimit) ⟨fun h => ⟨h.1, h.2⟩, fun h => ⟨h.1, h.2⟩⟩

/-- The digits in front count for a power of ten of the digits to come. -/
theorem ofDigitChars_lt {cs : List Char} (h : ∀ c ∈ cs, c.isDigit = true) (init : Nat) :
    Nat.ofDigitChars 10 cs init < (init + 1) * 10 ^ cs.length := by
  induction cs generalizing init with
  | nil => simp
  | cons c cs ih =>
      have hc := (Char.isDigit_iff_toNat.mp (h c List.mem_cons_self)).2
      have hdigit : c.toNat - '0'.toNat < 10 := by
        have h9 : '9'.toNat = 57 := rfl
        have h0 : '0'.toNat = 48 := rfl
        omega
      rw [Nat.ofDigitChars_cons, List.length_cons, Nat.pow_succ', ← Nat.mul_assoc]
      refine Nat.lt_of_lt_of_le (ih (fun d hd => h d (List.mem_cons_of_mem c hd)) _) ?_
      exact Nat.mul_le_mul_right _ (by omega)

theorem value_lt {cs : List Char} (h : ∀ c ∈ cs, c.isDigit = true) :
    value cs < 10 ^ cs.length := by
  simpa [value] using ofDigitChars_lt h 0

/-! ## The number of digits -/

theorem length_le_iff {n k : Nat} (hk : 0 < k) : length n ≤ k ↔ n < 10 ^ k :=
  Nat.length_toDigits_le_iff (by decide) hk

theorem length_pos (n : Nat) : 0 < length n :=
  Nat.length_toDigits_pos

theorem lt_pow_length (n : Nat) : n < 10 ^ length n :=
  (length_le_iff (length_pos n)).mp (Nat.le_refl _)

/-- A number other than zero has no digit to spare. -/
theorem pow_length_le {n : Nat} (hn : n ≠ 0) : 10 ^ (length n - 1) ≤ n := by
  refine Nat.le_of_not_lt fun hlt => ?_
  rcases Nat.eq_zero_or_pos (length n - 1) with hzero | hpos
  · rw [hzero, Nat.pow_zero, Nat.lt_one_iff] at hlt
    exact hn hlt
  · have := (length_le_iff hpos).mpr hlt
    have := length_pos n
    omega

theorem isWritable_natCast_iff (n : Nat) : isWritable n = true ↔ n < 10 ^ digitLimit := by
  rw [isWritable, decide_eq_true_eq, Int.natAbs_natCast]
  exact length_le_iff (by decide)

/-- What is read from digits within the limit can be written. -/
theorem isWritable_value {cs : List Char} (h : ∀ c ∈ cs, c.isDigit = true)
    (hlength : cs.length ≤ digitLimit) : isWritable (value cs) = true := by
  rw [isWritable_natCast_iff]
  exact Nat.lt_of_lt_of_le (value_lt h) (Nat.pow_le_pow_right (by decide) hlength)

theorem isWritable_of_le {m n : Nat} (h : m ≤ n) (hn : isWritable n = true) :
    isWritable m = true := by
  rw [isWritable_natCast_iff] at hn ⊢
  exact Nat.lt_of_le_of_lt h hn

/-- A number and its opposite have the same digits. -/
theorem isWritable_neg (n : Int) : isWritable (-n) = isWritable n := by
  rw [isWritable, isWritable, Int.natAbs_neg]

/-! ## Zeros at the front -/

/-- The digits without the zeros at their front, or a single zero. -/
def canonical (cs : List Char) : List Char :=
  match cs.dropWhile (· = '0') with
  | [] => ['0']
  | c :: rest => c :: rest

theorem digitChar_of_isDigit {c : Char} (h : c.isDigit = true) :
    c.toNat - '0'.toNat < 10 ∧ Nat.digitChar (c.toNat - '0'.toNat) = c := by
  have hc := Char.isDigit_iff_toNat.mp h
  have h0 : '0'.toNat = 48 := rfl
  have h9 : '9'.toNat = 57 := rfl
  have hlt : c.toNat - '0'.toNat < 10 := by omega
  refine ⟨hlt, Char.toNat_inj.mp ?_⟩
  rw [Nat.toNat_digitChar_of_lt_ten hlt]
  omega

/-- What holds of the ten digits holds of every digit. -/
theorem forall_isDigit {P : Char → Prop} (h : ∀ n < 10, P (Nat.digitChar n)) {c : Char}
    (hc : c.isDigit = true) : P c := by
  obtain ⟨hlt, hdigit⟩ := digitChar_of_isDigit hc
  exact hdigit ▸ h _ hlt

/-- Digits after a number other than zero are written as they were read. -/
theorem toDigits_ofDigitChars {cs : List Char} (h : ∀ c ∈ cs, c.isDigit = true) {init : Nat}
    (hinit : 0 < init) :
    Nat.toDigits 10 (Nat.ofDigitChars 10 cs init) = Nat.toDigits 10 init ++ cs := by
  induction cs generalizing init with
  | nil => simp
  | cons c cs ih =>
      obtain ⟨hlt, hc⟩ := digitChar_of_isDigit (h c List.mem_cons_self)
      rw [Nat.ofDigitChars_cons, ih (fun d hd => h d (List.mem_cons_of_mem c hd)) (by omega),
        ← Nat.toDigits_append_toDigits (by decide) hinit hlt, Nat.toDigits_of_lt_base hlt, hc,
        List.append_assoc, List.singleton_append]

/-- A number is written without the zeros at the front of the numeral it was read from. -/
theorem toDigits_value {cs : List Char} (h : ∀ c ∈ cs, c.isDigit = true) :
    Nat.toDigits 10 (value cs) = canonical cs := by
  induction cs with
  | nil => rfl
  | cons c cs ih =>
      have hcs : ∀ d ∈ cs, d.isDigit = true := fun d hd => h d (List.mem_cons_of_mem c hd)
      by_cases hc : c = '0'
      · rw [hc]
        exact ih hcs
      · obtain ⟨hlt, hdigit⟩ := digitChar_of_isDigit (h c List.mem_cons_self)
        have hpos : 0 < c.toNat - '0'.toNat := by
          refine Nat.pos_of_ne_zero fun hzero => hc ?_
          rw [← hdigit, hzero]
          rfl
        have hcanonical : canonical (c :: cs) = c :: cs := by simp [canonical, hc]
        rw [hcanonical, value, Nat.ofDigitChars_cons, Nat.mul_zero, Nat.zero_add,
          toDigits_ofDigitChars hcs hpos, Nat.toDigits_of_lt_base hlt, hdigit,
          List.singleton_append]

/-- Zeros at the front do not count. -/
theorem value_replicate_zero_append (k : Nat) (cs : List Char) :
    value (List.replicate k '0' ++ cs) = value cs := by
  rw [value, Nat.ofDigitChars_append, Nat.ofDigitChars_replicate_zero, Nat.mul_zero]
  rfl

/-- Zeros at the end count for powers of ten. -/
theorem value_append_replicate_zero (k : Nat) (cs : List Char) :
    value (cs ++ List.replicate k '0') = value cs * 10 ^ k := by
  rw [value, Nat.ofDigitChars_append, Nat.ofDigitChars_replicate_zero, Nat.mul_comm]
  rfl

theorem isDigit_of_mem_toDigits {n : Nat} {c : Char} (h : c ∈ Nat.toDigits 10 n) :
    c.isDigit = true :=
  Nat.isDigit_of_mem_toDigits (by decide) (by decide) h

theorem value_ofNat (n : Nat) : value (ofNat n).toList = n := by
  rw [ofNat, String.toList_ofList, value_toDigits]

/-- What is written of a number within the limit can be read. -/
theorem isShort_ofNat {n : Nat} (h : n < 10 ^ digitLimit) : IsShort (ofNat n) where
  isNumeral := by
    constructor
    · rw [ne_eq, ← String.toList_eq_nil_iff, ofNat, String.toList_ofList]
      exact Nat.toDigits_ne_nil
    · intro c hc
      rw [ofNat, String.toList_ofList] at hc
      exact isDigit_of_mem_toDigits hc
  length_le := by
    rw [ofNat, String.length_ofList]
    exact (length_le_iff (by decide)).mpr h

end Numeral

end PerpRollout
