import Mathlib.Algebra.BigOperators.Fin
import PerpRollout.Proofs.Check.Judgement

/-!
# Numerals read against a bound

A text of digits stands for a number by the places of its digits (`Numeral.placeValue`), and
that is the number a numeral is read to. It is read in two ways: by one check that knows the
bound, or by a chain that first reads the number and then compares it. Both read exactly the
numerals up to the bound (`Check.ReadsNumeral`), and they differ in one thing only: of a
numeral above the bound the check shows the text and the chain the number
(`Check.Chain.numeralAtMost_eq`).

Neither of them can tell of a numeral that it is above a bound of `-10 ^ 4300` or less
(`Numeral.IsFar`): such a bound has too many digits to be shown.
-/

namespace PerpRollout

namespace Numeral

/-! ## Digits in their places -/

/-- The number that digits stand for: each of them counts for the power of ten of the digits
after it. -/
def placeValue (cs : List Char) : ℕ :=
  ∑ i : Fin cs.length, Text.asciiDigitValue cs[i] * 10 ^ (cs.length - 1 - i)

@[simp] theorem placeValue_nil : placeValue [] = 0 := rfl

theorem placeValue_cons (c : Char) (cs : List Char) :
    placeValue (c :: cs) = Text.asciiDigitValue c * 10 ^ cs.length + placeValue cs := by
  change ∑ i : Fin (cs.length + 1), _ = _
  rw [Fin.sum_univ_succ]
  congr 1
  refine Finset.sum_congr rfl fun i _ => ?_
  congr 2
  simp only [List.length_cons, Fin.val_succ]
  omega

/-- Digits that are read one after the other give the number they stand for by their places. -/
theorem value_eq_placeValue (cs : List Char) : value cs = placeValue cs := by
  induction cs with
  | nil => rfl
  | cons c cs ih =>
      rw [value, Nat.ofDigitChars_cons, Nat.ofDigitChars_eq_ofDigitChars_zero, placeValue_cons,
        ← ih, Nat.mul_zero, Nat.zero_add, Nat.mul_comm]
      rfl

/-! ## Bounds far below zero -/

/-- So far below zero that it has too many digits to be shown. -/
def IsFar (bound : ℤ) : Prop :=
  bound ≤ -10 ^ 4300

theorem isFar_iff (bound : ℤ) : IsFar bound ↔ bound ≤ -((10 ^ digitLimit : ℕ) : ℤ) := by
  rw [Nat.cast_pow, Nat.cast_ofNat]
  rfl

theorem IsFar.lt_natCast {bound : ℤ} (h : IsFar bound) (n : ℕ) : bound < n := by
  have hpos : 0 < 10 ^ digitLimit := Nat.pow_pos (by decide)
  rw [isFar_iff] at h
  generalize 10 ^ digitLimit = limit at h hpos
  omega

/-- A bound below a number within the limit can be shown unless it is far below zero. -/
theorem isWritable_iff_not_isFar {bound : ℤ} {n : ℕ} (h : bound < n)
    (hn : isWritable n = true) : isWritable bound = true ↔ ¬IsFar bound := by
  rw [isWritable_natCast_iff] at hn
  rw [isWritable, decide_eq_true_eq, length_le_iff (by decide), isFar_iff]
  generalize 10 ^ digitLimit = limit at hn ⊢
  omega

end Numeral

/-! ## Faults by text and by number -/

/-- The fault as it is told of the number that was read: a numeral above the bound is shown
without the zeros at its front. -/
def Fault.counted : Fault → Fault
  | .numeralAbove name bound numeral => .above name bound (Numeral.value numeral.toList)
  | other => other

def Failure.counted : Failure → Failure
  | .fault f => .fault f.counted
  | other => other

namespace Check

open Numeral (IsFar IsShort placeValue value)

variable {s name : String} {high : Option ℤ}

section Above

variable (hs : IsShort s) {bound : ℤ}

include hs

theorem refuse_numeralAbove {α : Type} (hlt : bound < value s.toList) (name : String)
    (hnear : ¬IsFar bound) :
    (refuse (.numeralAbove name bound s) : Except Failure α) =
      .error (.fault (.numeralAbove name bound s)) := by
  have hvalue := isWritable_number hs.isNumeral hs.length_le
  have hshown : (Fault.numeralAbove name bound s).isWritable = true :=
    (Numeral.isWritable_iff_not_isFar hlt hvalue).mpr hnear
  rw [refuse, if_pos hshown]

/-- That a numeral is above a bound far below zero cannot be told. -/
theorem refuse_numeralAbove_of_isFar {α : Type} (hfar : IsFar bound) (name : String) :
    (refuse (.numeralAbove name bound s) : Except Failure α) = .error .integerTooLong := by
  have hvalue := isWritable_number hs.isNumeral hs.length_le
  have hshown : (Fault.numeralAbove name bound s).isWritable ≠ true := fun h =>
    (Numeral.isWritable_iff_not_isFar (hfar.lt_natCast _) hvalue).mp h hfar
  rw [refuse, if_neg hshown]

/-- Whether it can be told that a numeral is above a bound is up to the bound, not to how the
numeral is shown. -/
theorem refuse_above {α : Type} (name : String) (bound : ℤ) :
    (refuse (.above name bound (value s.toList)) : Except Failure α) =
      (refuse (.numeralAbove name bound s)).mapError Failure.counted := by
  have hwritable : (Fault.above name bound (value s.toList)).isWritable =
      (Fault.numeralAbove name bound s).isWritable := by
    rw [Fault.isWritable, isWritable_number hs.isNumeral hs.length_le, Bool.and_true]
    rfl
  rw [refuse, refuse, hwritable]
  cases (Fault.numeralAbove name bound s).isWritable with
  | true => rfl
  | false => rfl

end Above

/-! ## One check -/

/-- What comes of a text that is not too long, read as a numeral against a bound. -/
structure ReadsNumeral (s : String) (high : Option ℤ) (x : Except Failure Json) : Prop where
  /-- Exactly a numeral up to the bound is accepted, as the number that its digits stand for. -/
  accepts : ∀ v, x = .ok v ↔
    IsNumeral s ∧ (∀ b ∈ high, (placeValue s.toList : ℤ) ≤ b) ∧ v = .int (placeValue s.toList)
  /-- Any other text is a fault, and so is a numeral above a bound, if that can be told. -/
  faults : (∃ fault, x = .error (.fault fault)) ↔
    (IsNumeral s → ∃ b ∈ high, b < placeValue s.toList ∧ ¬IsFar b)
  /-- A bound that cannot be shown breaks off the reading of every numeral. -/
  breaksOff : x = .error .integerTooLong ↔ IsNumeral s ∧ ∃ b ∈ high, IsFar b

theorem readsNumeral_of_le (h : IsNumeral s)
    (hle : ∀ b ∈ high, (placeValue s.toList : ℤ) ≤ b) :
    ReadsNumeral s high (.ok (.int (placeValue s.toList))) where
  accepts v := by simpa [h, eq_comm] using fun _ => hle
  faults := by
    have hnone : ¬∃ b ∈ high, b < placeValue s.toList ∧ ¬IsFar b := by
      rintro ⟨b, hb, hlt, -⟩
      exact absurd (hle b hb) (Int.not_le.mpr hlt)
    simpa [h] using hnone
  breaksOff := by
    have hnone : ¬∃ b ∈ high, IsFar b := by
      rintro ⟨b, hb, hfar⟩
      exact absurd (hle b hb) (Int.not_le.mpr (hfar.lt_natCast _))
    simpa using fun _ => hnone

theorem Reading.readsNumeral {x : Except Failure ℕ} (h : Reading s name high x)
    (hlength : s.length ≤ 4300) : ReadsNumeral s high (x.map fun n : ℕ => Json.int n) := by
  cases h with
  | malformed h => constructor <;> simp [Except.map, h]
  | tooLong h hlong => exact absurd hlength (Nat.not_le.mpr hlong)
  | within h hle =>
      rw [Numeral.value_eq_placeValue] at hle ⊢
      exact readsNumeral_of_le h.isNumeral hle
  | @above hs bound hhigh hlt =>
      subst hhigh
      -- The numeral is refused in any case; whether with a fault is up to the bound.
      by_cases hfar : IsFar bound
      · rw [refuse_numeralAbove_of_isFar hs hfar]
        have hlt' := hfar.lt_natCast (placeValue s.toList)
        constructor <;> simp [Except.map, hlt', hfar, hs.isNumeral]
      · rw [refuse_numeralAbove hs hlt name hfar]
        rw [Numeral.value_eq_placeValue] at hlt
        constructor <;> simp [Except.map, hlt, hfar]

/-! ## The chain -/

namespace Chain

/-- Reads the value as a numeral, and asks for at most the bound, if one is given. -/
def numeralAtMost (high : Option ℤ) (c : Chain) : Except Failure Chain := do
  let c ← c.isNumeral
  match high with
  | none => return c
  | some bound => c.atMost bound

theorem numeralAtMost_of_error {v : Json} {e : Failure}
    (h : numeral v none name = .error e) : numeralAtMost high ⟨v, name⟩ = .error e := by
  rw [numeralAtMost, isNumeral, h]
  rfl

theorem numeralAtMost_of_ok {v : Json} {n : ℕ} (h : numeral v none name = .ok n) :
    numeralAtMost high ⟨v, name⟩ =
      (integer (.int n) none high name).map fun m => ⟨.int m, name⟩ := by
  rw [numeralAtMost, isNumeral, h]
  cases high with
  | none => rfl
  | some bound =>
      change atMost bound ⟨.int n, name⟩ = _
      rw [atMost]
      cases integer (.int n) none (some bound) name with
      | ok m => rfl
      | error e => rfl

/-- The chain says of every value what the check says, except that it tells of a numeral above
the bound by its number. -/
theorem numeralAtMost_eq (high : Option ℤ) (v : Json) (name : String) :
    numeralAtMost high ⟨v, name⟩ =
      ((numeral v high name).map fun n : ℕ => ⟨.int n, name⟩).mapError Failure.counted := by
  cases v with
  | str s =>
      have hread := reading_numeral s name high
      generalize numeral (.str s) high name = x at hread ⊢
      cases hread with
      | malformed h =>
          rw [numeralAtMost_of_error (numeral_of_not_isNumeral h none name)]
          rfl
      | tooLong h hlong =>
          rw [numeralAtMost_of_error (numeral_of_length_gt h hlong none name)]
          rfl
      | within hs hle =>
          rw [numeralAtMost_of_ok (numeral_none hs.isNumeral hs.length_le name),
            integer_of_le hle]
          rfl
      | above hs hhigh hlt =>
          subst hhigh
          rw [numeralAtMost_of_ok (numeral_none hs.isNumeral hs.length_le name),
            integer_atMost, if_pos hlt, refuse_above hs]
          rfl
  | _ => rfl

end Chain

/-! ## Both agree -/

theorem ReadsNumeral.counted {x : Except Failure Json} (h : ReadsNumeral s high x) :
    ReadsNumeral s high (x.mapError Failure.counted) := by
  cases x with
  | ok v => exact h
  | error e =>
      cases e with
      | fault f =>
          exact {
            accepts := fun v => by simpa [Except.mapError] using h.accepts v
            faults := by simpa [Except.mapError, Failure.counted] using h.faults
            breaksOff := by simpa [Except.mapError, Failure.counted] using h.breaksOff }
      | _ => exact h

/-- A text of at most 4300 characters is read as a numeral against a bound by the check and by
the chain alike, and of every value the chain says what the check says but for the way a numeral
above the bound is shown. What is written of a number of at most 4300 digits is read back. -/
theorem numeral_agrees_with_chain (name : String) :
    (∀ s high, s.length ≤ 4300 →
      ReadsNumeral s high ((numeral (.str s) high name).map fun n : ℕ => Json.int n) ∧
        ReadsNumeral s high ((Chain.numeralAtMost high ⟨.str s, name⟩).map Chain.value)) ∧
      (∀ v high, Chain.numeralAtMost high ⟨v, name⟩ =
        ((numeral v high name).map fun n : ℕ => ⟨.int n, name⟩).mapError Failure.counted) ∧
      ∀ n, Numeral.length n ≤ 4300 → numeral (.str (Numeral.ofNat n)) none name = .ok n := by
  refine ⟨fun s high hs => ?_, fun v high => Chain.numeralAtMost_eq high v name, fun n hn => ?_⟩
  · have hcheck := (reading_numeral s name high).readsNumeral hs
    have hchain : (Chain.numeralAtMost high ⟨.str s, name⟩).map Chain.value =
        ((numeral (.str s) high name).map fun n : ℕ => Json.int n).mapError Failure.counted := by
      rw [Chain.numeralAtMost_eq]
      cases numeral (.str s) high name with
      | ok n => rfl
      | error e => rfl
    refine ⟨hcheck, ?_⟩
    rw [hchain]
    exact hcheck.counted
  · have hlength : Numeral.length n ≤ Numeral.digitLimit := hn
    have hshort := Numeral.isShort_ofNat ((Numeral.length_le_iff (by decide)).mp hlength)
    rw [numeral_none hshort.isNumeral hshort.length_le, Numeral.value_ofNat]

/-- A numeral with zeros at its front, at a bound that it meets and at one that it exceeds. -/
theorem numeral_agrees_with_chain_of_padded :
    ((numeral (.str "007") (some 7) "value").map fun n : ℕ => Json.int n) = .ok (.int 7) ∧
      (Chain.numeralAtMost (some 7) ⟨.str "007", "value"⟩).map Chain.value = .ok (.int 7) ∧
      numeral (.str "007") (some 3) "value" = .error (.fault (.numeralAbove "value" 3 "007")) ∧
      Chain.numeralAtMost (some 3) ⟨.str "007", "value"⟩ =
        .error (.fault (.above "value" 3 7)) := by
  obtain ⟨hreads, hchain, -⟩ := numeral_agrees_with_chain "value"
  obtain ⟨hcheck, hsteps⟩ := hreads "007" (some 7) (by decide)
  have hvalue : placeValue "007".toList = 7 := by decide
  have haccepted : IsNumeral "007" ∧ (∀ b ∈ some (7 : ℤ), (placeValue "007".toList : ℤ) ≤ b) ∧
      Json.int 7 = .int (placeValue "007".toList) := by
    rw [hvalue]
    exact ⟨by decide, by simp, rfl⟩
  exact ⟨(hcheck.accepts _).mpr haccepted, (hsteps.accepts _).mpr haccepted, rfl,
    hchain (.str "007") (some 3)⟩

/-- The greatest bound that is far below zero. -/
def farBound : ℤ := -10 ^ 4300

theorem isFar_farBound : IsFar farBound :=
  Int.le_refl farBound

/-- A numeral above that bound is refused, but not with a fault. -/
theorem not_fault_of_farBound :
    ¬∀ s high, s.length ≤ 4300 →
      (¬∃ n : ℕ, IsNumeral s ∧ n = placeValue s.toList ∧ ∀ b ∈ high, (n : ℤ) ≤ b) →
        ∃ fault, numeral (.str s) high "value" = .error (.fault fault) := by
  intro h
  have habove : ¬∃ n : ℕ, IsNumeral "0" ∧ n = placeValue "0".toList ∧
      ∀ b ∈ some farBound, (n : ℤ) ≤ b := by
    rintro ⟨n, -, -, hn⟩
    exact absurd (hn farBound rfl) (Int.not_le.mpr (isFar_farBound.lt_natCast n))
  obtain ⟨fault, hfault⟩ := h "0" (some farBound) (by decide) habove
  have hread := (reading_numeral "0" "value" (some farBound)).readsNumeral (by decide)
  have htold := hread.faults.mp ⟨fault, congrArg (Except.map fun n : ℕ => Json.int n) hfault⟩
  obtain ⟨b, hb, -, hnear⟩ := htold (by decide)
  have hbound : farBound = b := Option.some.inj hb
  exact hnear (hbound ▸ isFar_farBound)

end Check

end PerpRollout
