import PerpRollout.Proofs.Check
import PerpRollout.Proofs.Numeral

/-!
# What a check comes to

A check of a value passes, tells a fault, or breaks off because a number has too many
digits to be read or to be shown (`Failure.IsTooLong`). `Check.Judges` states all
three at once: a check breaks off unless the value is legible, and of a legible value
it says whether it passes. There is one lemma for each check that rules are made of;
those about numerals go by the ways in which a text is read as one (`Check.Reading`).
-/

namespace PerpRollout

/-- A number has too many digits, to be shown or to be read. -/
inductive Failure.IsTooLong : Failure → Prop
  | shown : IsTooLong .integerTooLong
  | read {digits : Nat} (h : Numeral.digitLimit < digits) : IsTooLong (.numeralTooLong digits)

namespace Check

/-- The check breaks off unless `legible`, and then passes or tells a fault. -/
structure Judges {α : Type} (x : Except Failure α) (legible passes : Prop) : Prop where
  pass : legible → passes → ∃ a, x = .ok a
  fault : legible → ¬passes → ∃ fault, x = .error (.fault fault)
  tooLong : ¬legible → ∃ e, x = .error e ∧ e.IsTooLong

variable {α : Type} {x : Except Failure α} {legible passes : Prop}

theorem Judges.congr {legible' passes' : Prop} (h : Judges x legible passes)
    (hlegible : legible' ↔ legible) (hpasses : legible → (passes' ↔ passes)) :
    Judges x legible' passes' where
  pass hl hp := h.pass (hlegible.mp hl) ((hpasses (hlegible.mp hl)).mp hp)
  fault hl hp := h.fault (hlegible.mp hl) fun hp' => hp ((hpasses (hlegible.mp hl)).mpr hp')
  tooLong hl := h.tooLong fun hl' => hl (hlegible.mpr hl')

theorem judges_ok (a : α) : Judges (.ok a) True True where
  pass _ _ := ⟨a, rfl⟩
  fault _ h := absurd trivial h
  tooLong h := absurd trivial h

theorem judges_of_fault (fault : Fault) (hlegible : legible) (hpasses : ¬passes) :
    Judges (.error (.fault fault) : Except Failure α) legible passes where
  pass _ h := absurd h hpasses
  fault _ _ := ⟨fault, rfl⟩
  tooLong h := absurd hlegible h

theorem judges_of_isTooLong {e : Failure} (h : e.IsTooLong) (hlegible : ¬legible) :
    Judges (.error e : Except Failure α) legible passes where
  pass hl := absurd hl hlegible
  fault hl := absurd hl hlegible
  tooLong _ := ⟨e, rfl, h⟩

/-- A fault breaks off when it cannot be told. -/
theorem judges_refuse (fault : Fault) :
    Judges (refuse fault : Except Failure α) (fault.isWritable = true) False where
  pass _ h := h.elim
  fault h _ := ⟨fault, by rw [refuse, if_pos h]⟩
  tooLong h := ⟨.integerTooLong, by rw [refuse, if_neg h], .shown⟩

/-- A check whose faults can always be told. -/
theorem judges_of_faults (hpass : (∃ a, x = .ok a) ↔ passes)
    (hfault : ∀ e, x = .error e → ∃ fault, e = .fault fault) : Judges x True passes where
  pass _ h := hpass.mpr h
  fault _ h := by
    cases hx : x with
    | ok a => exact absurd (hpass.mp ⟨a, hx⟩) h
    | error e =>
        obtain ⟨fault, rfl⟩ := hfault e hx
        exact ⟨fault, rfl⟩
  tooLong h := absurd trivial h

/-- A check in two steps, of which the second goes by what the first gives. -/
theorem Judges.bind {β : Type} {f : α → Except Failure β} {legible' passes' : Prop}
    (h : Judges x legible passes) (hf : ∀ a, x = .ok a → Judges (f a) legible' passes') :
    Judges (x >>= f) (legible ∧ (passes → legible')) (passes ∧ passes') := by
  by_cases hl : legible
  · by_cases hp : passes
    · obtain ⟨a, rfl⟩ := h.pass hl hp
      exact (hf a rfl).congr (by simp [hl, hp]) fun _ => by simp [hp]
    · obtain ⟨fault, rfl⟩ := h.fault hl hp
      exact judges_of_fault fault ⟨hl, fun hpass => absurd hpass hp⟩ fun hpass => hp hpass.1
  · obtain ⟨e, rfl, he⟩ := h.tooLong hl
    exact judges_of_isTooLong he fun hlegible => hl hlegible.1

/-! ## Integers -/

theorem integer_atLeast (n low : Int) (high : Option Int) (name : String) :
    integer (.int n) (some low) high name =
      if n < low then refuse (.below name low n) else integer (.int n) none high name := by
  by_cases h : n < low <;> simp [integer, Option.filter_some, h]

theorem integer_atMost (n high : Int) (name : String) :
    integer (.int n) none (some high) name =
      if high < n then refuse (.above name high n) else .ok n := by
  by_cases h : high < n <;> simp [integer, Option.filter_some, h]

theorem integer_of_le {n : Int} {high : Option Int} (h : ∀ b ∈ high, n ≤ b) (name : String) :
    integer (.int n) none high name = .ok n := by
  cases high with
  | none => rfl
  | some bound => rw [integer_atMost, if_neg (Int.not_lt.mpr (h bound rfl))]

theorem judges_atMost (n high : Int) (name : String) :
    Judges (integer (.int n) none (some high) name)
      (high < n → Numeral.isWritable high = true ∧ Numeral.isWritable n = true) (n ≤ high) := by
  rw [integer_atMost]
  split
  next h => exact (judges_refuse _).congr (by simp [Fault.isWritable, h]) fun _ => by simp [h]
  next h => exact (judges_ok n).congr (by simp [h]) fun _ => by simp [Int.not_lt.mp h]

theorem judges_atLeast {low : Int} (hlow : Numeral.isWritable low = true) (n : Int)
    (name : String) :
    Judges (integer (.int n) (some low) none name) (n < low → Numeral.isWritable n = true)
      (low ≤ n) := by
  rw [integer_atLeast]
  split
  next h =>
    exact (judges_refuse _).congr (by simp [Fault.isWritable, hlow, h]) fun _ => by simp [h]
  next h => exact (judges_ok n).congr (by simp [h]) fun _ => by simp [Int.not_lt.mp h]

theorem judges_between {low high : Int} (hlow : Numeral.isWritable low = true)
    (hhigh : Numeral.isWritable high = true) (n : Int) (name : String) :
    Judges (integer (.int n) (some low) (some high) name)
      (n < low ∨ high < n → Numeral.isWritable n = true) (low ≤ n ∧ n ≤ high) := by
  rw [integer_atLeast]
  split
  next h =>
    exact (judges_refuse _).congr (by simp [Fault.isWritable, hlow, h]) fun _ => by
      simp [Int.not_le.mpr h]
  next h =>
    exact (judges_atMost n high name).congr (by simp [hhigh, h]) fun _ => by
      simp [Int.not_lt.mp h]

/-! ## Numerals -/

theorem numeral_of_not_isNumeral {s : String} (h : ¬IsNumeral s) (high : Option Int)
    (name : String) : numeral (.str s) high name = .error (.fault (.notNumeral name s)) := by
  have hs : Numeral.isNumeral s.toList = false := by
    simpa using fun h' => h ((Numeral.isNumeral_iff s).mp h')
  simp [numeral, hs, refuse, Fault.isWritable]

section

variable {s : String} (hs : IsNumeral s)

include hs

theorem numeral_of_length_gt (h : Numeral.digitLimit < s.length) (high : Option Int)
    (name : String) : numeral (.str s) high name = .error (.numeralTooLong s.length) := by
  simp [numeral, (Numeral.isNumeral_iff s).mpr hs, String.length_toList, h]

variable (hlength : s.length ≤ Numeral.digitLimit)

include hlength

theorem numeral_of_le {high : Option Int}
    (hhigh : ∀ b ∈ high, (Numeral.value s.toList : Int) ≤ b) (name : String) :
    numeral (.str s) high name = .ok (Numeral.value s.toList) := by
  have hfilter : high.filter (· < (Numeral.value s.toList : Int)) = none := by
    simpa [Option.filter_eq_none_iff] using hhigh
  simp [numeral, (Numeral.isNumeral_iff s).mpr hs, String.length_toList, Nat.not_lt.mpr hlength,
    hfilter]

theorem numeral_of_gt {high : Int} (hhigh : high < Numeral.value s.toList) (name : String) :
    numeral (.str s) (some high) name = refuse (.numeralAbove name high s) := by
  simp [numeral, (Numeral.isNumeral_iff s).mpr hs, String.length_toList, Nat.not_lt.mpr hlength,
    Option.filter_some, hhigh]

theorem numeral_none (name : String) :
    numeral (.str s) none name = .ok (Numeral.value s.toList) :=
  numeral_of_le hs hlength (by simp) name

/-- The number of a numeral that can be read can be shown. -/
theorem isWritable_number : Numeral.isWritable (Numeral.value s.toList) = true :=
  Numeral.isWritable_value hs.2 (String.length_toList.symm ▸ hlength)

end

/-- The ways in which a text is read as a numeral against a bound. -/
inductive Reading (s name : String) (high : Option Int) : Except Failure Nat → Prop
  | malformed (h : ¬IsNumeral s) : Reading s name high (.error (.fault (.notNumeral name s)))
  | tooLong (h : IsNumeral s) (hlong : Numeral.digitLimit < s.length) :
      Reading s name high (.error (.numeralTooLong s.length))
  | within (h : Numeral.IsShort s) (hle : ∀ b ∈ high, (Numeral.value s.toList : Int) ≤ b) :
      Reading s name high (.ok (Numeral.value s.toList))
  | above (h : Numeral.IsShort s) {bound : Int} (hhigh : high = some bound)
      (hlt : bound < Numeral.value s.toList) :
      Reading s name high (refuse (.numeralAbove name bound s))

theorem reading_numeral (s name : String) (high : Option Int) :
    Reading s name high (numeral (.str s) high name) := by
  by_cases hs : IsNumeral s
  · by_cases hlength : s.length ≤ Numeral.digitLimit
    · by_cases hle : ∀ b ∈ high, (Numeral.value s.toList : Int) ≤ b
      · rw [numeral_of_le hs hlength hle]
        exact .within ⟨hs, hlength⟩ hle
      · simp only [Classical.not_forall, Int.not_le, exists_prop] at hle
        obtain ⟨bound, rfl, hlt⟩ := hle
        rw [numeral_of_gt hs hlength hlt]
        exact .above ⟨hs, hlength⟩ rfl hlt
    · have hlong := Nat.not_le.mp hlength
      rw [numeral_of_length_gt hs hlong]
      exact .tooLong hs hlong
  · rw [numeral_of_not_isNumeral hs]
    exact .malformed hs

/-- The three ways in which a text is read as a numeral without a bound. -/
theorem numeral_cases (s name : String) :
    (¬IsNumeral s ∧ ∃ fault, numeral (.str s) none name = .error (.fault fault)) ∨
    (IsNumeral s ∧ Numeral.digitLimit < s.length ∧
      numeral (.str s) none name = .error (.numeralTooLong s.length)) ∨
    (IsNumeral s ∧ s.length ≤ Numeral.digitLimit ∧
      numeral (.str s) none name = .ok (Numeral.value s.toList)) := by
  have hread := reading_numeral s name none
  generalize numeral (.str s) none name = x at hread ⊢
  cases hread with
  | malformed h => exact .inl ⟨h, _, rfl⟩
  | tooLong h hlong => exact .inr (.inl ⟨h, hlong, rfl⟩)
  | within h _ => exact .inr (.inr ⟨h.isNumeral, h.length_le, rfl⟩)
  | above _ hhigh _ => cases hhigh

theorem judges_numeral {high : Option Int} (hhigh : ∀ b ∈ high, Numeral.isWritable b = true)
    (s name : String) :
    Judges (numeral (.str s) high name) (IsNumeral s → s.length ≤ Numeral.digitLimit)
      (IsNumeral s ∧ ∀ b ∈ high, (Numeral.value s.toList : Int) ≤ b) := by
  have hread := reading_numeral s name high
  generalize numeral (.str s) high name = x at hread ⊢
  cases hread with
  | malformed h => exact judges_of_fault _ (fun hs => absurd hs h) fun hs => h hs.1
  | tooLong h hlong =>
      exact judges_of_isTooLong (.read hlong) fun hlegible => Nat.not_le.mpr hlong (hlegible h)
  | within h hle =>
      exact (judges_ok _).congr (by simp [h.length_le]) fun _ => iff_true_intro ⟨h.isNumeral, hle⟩
  | above h hbound hlt =>
      subst hbound
      refine (judges_refuse _).congr ?_ fun _ => ?_
      · simp [Fault.isWritable, hhigh _ rfl, h.length_le]
      · simp [hlt]

/-! ## Chains of checks -/

namespace Chain

theorem judges_isNumeral (s name : String) :
    Judges (isNumeral ⟨.str s, name⟩)
      (IsNumeral s → s.length ≤ Numeral.digitLimit) (IsNumeral s) := by
  have hhigh : ∀ b ∈ (none : Option Int), Numeral.isWritable b = true := by simp
  have hread := judges_numeral hhigh s name
  refine (hread.bind fun n _ => judges_ok _).congr ?_ fun _ => ?_
  · simp
  · simp

/-- What a numeral is read to, if it is read. -/
theorem isNumeral_eq_ok {s name : String} {chain : Chain}
    (h : isNumeral ⟨.str s, name⟩ = .ok chain) :
    IsNumeral s ∧ s.length ≤ Numeral.digitLimit ∧ chain = ⟨.int (Numeral.value s.toList), name⟩ := by
  rw [isNumeral] at h
  rcases numeral_cases s name with ⟨-, _, hread⟩ | ⟨-, -, hread⟩ | ⟨hs, hlength, hread⟩
  · rw [hread] at h
    cases h
  · rw [hread] at h
    cases h
  · rw [hread] at h
    cases h
    exact ⟨hs, hlength, rfl⟩

theorem judges_atMost (n bound : Int) (name : String) :
    Judges (atMost bound ⟨.int n, name⟩)
      (bound < n → Numeral.isWritable bound = true ∧ Numeral.isWritable n = true)
      (n ≤ bound) := by
  have hread := Check.judges_atMost n bound name
  refine (hread.bind fun n _ => judges_ok _).congr ?_ fun _ => ?_
  · simp
  · simp

end Chain

/-! ## Texts and addresses -/

theorem judges_text (s name : String) :
    Judges (text (.str s) [] false name) True (Text.blank s = false) := by
  by_cases hs : Text.blank s = true
  · have hcheck : text (.str s) [] false name = refuse (.empty name) := by simp [text, hs]
    rw [hcheck]
    exact (judges_refuse _).congr (by simp [Fault.isWritable]) fun _ => by simp [hs]
  · have hcheck : text (.str s) [] false name = .ok s := by simp [text, hs]
    rw [hcheck]
    exact (judges_ok s).congr (by simp) fun _ => by simp [hs]

theorem judges_address (v : Json) (name : String) :
    Judges (address v name) True (∃ a, v = .str a ∧ IsAddress a) :=
  judges_of_faults (by simp only [address_eq_ok_iff]) fun _ h => address_eq_error h

end Check

end PerpRollout
