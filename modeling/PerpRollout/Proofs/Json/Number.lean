import PerpRollout.Json.Parser
import PerpRollout.Proofs.Numeral

/-!
# Integers are read back as they are written

The numeral of an integer has no leading zero, so `Json.parseNumber` takes all of
it, and stops there unless the text goes on with a digit, a point or an exponent
(`Json.Ends`). Its digits are within the limit on reading when they are within the
limit on writing.
-/

namespace PerpRollout.Json

/-- No number goes on with this text: it starts with no digit, point or exponent. -/
def Ends (rest : List Char) : Prop :=
  ∀ c ∈ rest.head?, Text.isAsciiDigit c = false ∧ c ≠ '.' ∧ c ≠ 'e' ∧ c ≠ 'E'

theorem ends_nil : Ends [] := by
  simp [Ends]

theorem ends_cons {c : Char} {rest : List Char} :
    Ends (c :: rest) ↔ Text.isAsciiDigit c = false ∧ c ≠ '.' ∧ c ≠ 'e' ∧ c ≠ 'E' := by
  simp [Ends]

theorem isAsciiDigit_of_mem_toDigits {n : Nat} {c : Char} (h : c ∈ Nat.toDigits 10 n) :
    Text.isAsciiDigit c = true :=
  (Numeral.isAsciiDigit_iff c).mpr (Numeral.isDigit_of_mem_toDigits h)

theorem spanDigits_append {ds rest : List Char} (hds : ∀ c ∈ ds, Text.isAsciiDigit c = true)
    (hrest : Ends rest) : spanDigits (ds ++ rest) = (ds, rest) :=
  span_append hds fun c hc => (hrest c hc).1

/-- The numeral of a positive number does not start with a zero. -/
theorem head?_toDigits_ne {n : Nat} (h : 0 < n) : (Nat.toDigits 10 n).head? ≠ some '0' := by
  induction n using Nat.strongRecOn with
  | ind n ih =>
      by_cases hn : n < 10
      · have h10 : ∀ n < 10, 0 < n → [Nat.digitChar n].head? ≠ some '0' := by decide
        rw [Nat.toDigits_of_lt_base hn]
        exact h10 n hn h
      · have hle : 10 ≤ n := Nat.le_of_not_lt hn
        have hrec := ih (n / 10) (by omega) (by omega)
        rw [Nat.toDigits_of_base_le (by decide) hle, List.head?_append]
        cases hds : Nat.toDigits 10 (n / 10) with
        | nil => exact absurd hds Nat.toDigits_ne_nil
        | cons d ds =>
            rw [hds] at hrec
            simpa using hrec

theorem integerPart?_toDigits (n : Nat) {rest : List Char} (hrest : Ends rest) :
    integerPart? (Nat.toDigits 10 n ++ rest) = some (Nat.toDigits 10 n, rest) := by
  by_cases hn : n = 0
  · rw [hn, Nat.toDigits_zero]
    rfl
  · have hhead := head?_toDigits_ne (Nat.pos_of_ne_zero hn)
    have hspan := spanDigits_append (fun c => isAsciiDigit_of_mem_toDigits (n := n)) hrest
    cases hds : Nat.toDigits 10 n with
    | nil => exact absurd hds Nat.toDigits_ne_nil
    | cons d ds =>
        rw [hds] at hhead hspan
        have hd : d ≠ '0' := by simpa using hhead
        rw [List.cons_append] at hspan ⊢
        rw [integerPart?]
        · rw [hspan]
        · exact fun _ h => hd (List.cons.inj h).1

theorem fractionPart_of_ends {rest : List Char} (hrest : Ends rest) :
    fractionPart rest = ([], rest) := by
  cases rest with
  | nil => rfl
  | cons c rest =>
      have hc := (ends_cons.mp hrest).2.1
      rw [fractionPart.eq_def]
      split
      next h =>
        cases h
        exact absurd rfl hc
      next => rfl

theorem exponentPart_of_ends {rest : List Char} (hrest : Ends rest) :
    exponentPart rest = (none, rest) := by
  cases rest with
  | nil => rfl
  | cons c rest =>
      obtain ⟨-, -, he, hE⟩ := ends_cons.mp hrest
      exact if_neg (by simp [he, hE])

theorem exists_toDigits_eq_cons (n : Nat) :
    ∃ d ds, Nat.toDigits 10 n = d :: ds ∧ Text.isAsciiDigit d = true := by
  cases hds : Nat.toDigits 10 n with
  | nil => exact absurd hds Nat.toDigits_ne_nil
  | cons d ds => exact ⟨d, ds, rfl, isAsciiDigit_of_mem_toDigits (n := n) (by simp [hds])⟩

theorem ne_of_isAsciiDigit {c d : Char} (h : Text.isAsciiDigit c = true)
    (hd : Text.isAsciiDigit d = false) : c ≠ d := by
  intro hcd
  rw [hcd, hd] at h
  cases h

variable {limit n : Nat} {rest : List Char}

theorem parseNumber_neg (hlimit : Numeral.length n ≤ limit) (hrest : Ends rest) :
    parseNumber limit ('-' :: (Nat.toDigits 10 n ++ rest)) = .ok (.int (-n), rest) := by
  have hlength : ¬limit < (Nat.toDigits 10 n).length := Nat.not_lt.mpr hlimit
  unfold parseNumber
  simp [integerPart?_toDigits n hrest, fractionPart_of_ends hrest, exponentPart_of_ends hrest,
    hlength, Numeral.value_toDigits]

theorem parseNumber_toDigits (hlimit : Numeral.length n ≤ limit) (hrest : Ends rest) :
    parseNumber limit (Nat.toDigits 10 n ++ rest) = .ok (.int n, rest) := by
  have hlength : ¬limit < (Nat.toDigits 10 n).length := Nat.not_lt.mpr hlimit
  have hint := integerPart?_toDigits n hrest
  have hvalue := Numeral.value_toDigits n
  obtain ⟨d, ds, hds, hdigit⟩ := exists_toDigits_eq_cons n
  have hd : d ≠ '-' := ne_of_isAsciiDigit hdigit (by decide)
  rw [hds, List.cons_append] at hint
  rw [hds] at hlength hvalue ⊢
  unfold parseNumber
  simp [-List.length_cons, hd, hint, fractionPart_of_ends hrest, exponentPart_of_ends hrest,
    hlength, hvalue]

theorem toList_ofInt_ofNat (n : Nat) : (Numeral.ofInt n).toList = Nat.toDigits 10 n := by
  change (Numeral.ofNat n).toList = _
  rw [Numeral.ofNat, String.toList_ofList]

theorem toList_ofInt_negSucc (n : Nat) :
    (Numeral.ofInt (Int.negSucc n)).toList = '-' :: Nat.toDigits 10 (n + 1) := by
  simp [Numeral.ofInt, Numeral.ofNat]

/-- An integer is read back, unless what follows would be taken for more of it. -/
theorem parseNumber_ofInt {n : Int} (hlimit : Numeral.length n.natAbs ≤ limit)
    (hrest : Ends rest) :
    parseNumber limit ((Numeral.ofInt n).toList ++ rest) = .ok (.int n, rest) := by
  cases n with
  | ofNat n =>
      change parseNumber limit ((Numeral.ofInt (n : Int)).toList ++ rest) = _
      rw [toList_ofInt_ofNat]
      exact parseNumber_toDigits hlimit hrest
  | negSucc n =>
      rw [toList_ofInt_negSucc]
      exact parseNumber_neg hlimit hrest

end PerpRollout.Json
