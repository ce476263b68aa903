import PerpRollout.Proofs.Rules.Template

/-!
# What the rules of steps find

A step asks for the addresses it needs and, for the market maker, for a curve that can
be opened. `finds_rules` puts template and steps together: where the numbers of a record
are legible, the rules tell of exactly the places that are not as template and steps ask.
-/

namespace PerpRollout.Rules

open Place

variable (env : Option String)

/-! ## Addresses -/

theorem slotJson_eq_str_iff (r : Record) (m : Module) (a : String) :
    r.slotJson m = .str a ↔ a ∈ r.address m := by
  rw [Record.slotJson]
  cases r.address m <;> simp

theorem finds_addressRule (r : Record) (m : Module) :
    Finds env [addressRule env r m] True
      fun p => p = .slot m ∧ ¬∃ a ∈ r.address m, IsAddress a := by
  have h := finds_finding env (Check.judges_address (r.slotJson m) m.field) (.slot m)
  simp only [slotJson_eq_str_iff] at h
  exact h

theorem finds_requirements (r : Record) (s : Step) :
    Finds env (s.requirements.map (addressRule env r)) True
      fun p => ∃ m ∈ s.requirements, p = .slot m ∧ ¬∃ a ∈ r.address m, IsAddress a := by
  have h := Finds.flatMap fun m (_ : m ∈ s.requirements) => finds_addressRule env r m
  rw [List.map_eq_flatMap]
  exact h.congr (by simp) fun _ _ => Iff.rfl

/-! ## The curve -/

/-- A reserve of zero is told of, whatever is found besides. -/
theorem positiveRule_eq_ok (name : String) (reserve : Nat) :
    ∃ found, positiveRule env name reserve = .ok found := by
  rw [positiveRule, findingIf]
  cases decide (reserve = 0) with
  | true => exact ⟨_, rfl⟩
  | false => exact ⟨_, rfl⟩

theorem finds_positiveRule (p : Place) (name : String) (hp : p.path = Section.vamm.path name)
    (reserve : Nat) :
    Finds env [positiveRule env name reserve] True fun q => q = p ∧ reserve = 0 := by
  rw [positiveRule, ← hp]
  refine (finds_findingIf env _ p _).congr ?_ fun _ q => ?_
  · simp [Reason.isWritable]
  · simp

/-- What it takes for the rule of the curve to say something. -/
def CurveLegible (v : Vamm) : Prop :=
  IsNumeral v.quoteReserve → v.quoteReserve.length ≤ Numeral.digitLimit ∧
    (IsNumeral v.baseReserve → v.baseReserve.length ≤ Numeral.digitLimit ∧
      (2 ^ 256 - 1 <
          Numeral.value v.quoteReserve.toList * Numeral.value v.baseReserve.toList →
        Numeral.isWritable
          (Numeral.value v.quoteReserve.toList * Numeral.value v.baseReserve.toList) = true))

/-- The reserve of that place keeps the curve from being opened. -/
def BrokenCurve (v : Vamm) (p : Place) : Prop :=
  p = .quoteReserve ∧ IsNumeral v.quoteReserve ∧
      (Numeral.value v.quoteReserve.toList = 0 ∨
        IsNumeral v.baseReserve ∧ 2 ^ 256 - 1 <
          Numeral.value v.quoteReserve.toList * Numeral.value v.baseReserve.toList) ∨
    p = .baseReserve ∧ IsNumeral v.quoteReserve ∧ IsNumeral v.baseReserve ∧
      Numeral.value v.baseReserve.toList = 0

theorem curveRule_eq_gather {v : Vamm} (hquote : IsNumeral v.quoteReserve)
    (hlength : v.quoteReserve.length ≤ Numeral.digitLimit) (hbase : IsNumeral v.baseReserve)
    (hlength' : v.baseReserve.length ≤ Numeral.digitLimit) :
    curveRule env v = gather
      [positiveRule env "quote_asset_reserve" (Numeral.value v.quoteReserve.toList),
        positiveRule env "base_asset_reserve" (Numeral.value v.baseReserve.toList),
        findingIf
          (maxProduct < Numeral.value v.quoteReserve.toList * Numeral.value v.baseReserve.toList)
          env (Section.vamm.path "quote_asset_reserve")
          (.productTooWide
            (Numeral.value v.quoteReserve.toList * Numeral.value v.baseReserve.toList))] := by
  obtain ⟨first, hfirst⟩ := positiveRule_eq_ok env "quote_asset_reserve"
    (Numeral.value v.quoteReserve.toList)
  obtain ⟨second, hsecond⟩ := positiveRule_eq_ok env "base_asset_reserve"
    (Numeral.value v.baseReserve.toList)
  simp only [curveRule, Check.numeral_none hquote hlength, Check.numeral_none hbase hlength',
    gather, hfirst, hsecond]
  cases findingIf _ env _ _ with
  | ok third => simp [bind, Except.bind, pure, Except.pure]
  | error e => rfl

theorem finds_curveRule (v : Vamm) :
    Finds env [curveRule env v] (CurveLegible v) (BrokenCurve v) := by
  rcases Check.numeral_cases v.quoteReserve "value" with ⟨hquote, fault, hread⟩ |
    ⟨hquote, hlong, hread⟩ | ⟨hquote, hlength, hread⟩
  · simp only [curveRule, hread]
    exact finds_nothing (by simp [CurveLegible, hquote]) (by simp [BrokenCurve, hquote])
  · simp only [curveRule, hread]
    exact finds_of_isTooLong (.read hlong) fun h => Nat.not_le.mpr hlong (h hquote).1
  -- From here on the quote reserve is read; what is found of it stands, whatever the other is.
  · have hfirst := finds_positiveRule env .quoteReserve "quote_asset_reserve" rfl
      (Numeral.value v.quoteReserve.toList)
    obtain ⟨first, hok⟩ := positiveRule_eq_ok env "quote_asset_reserve"
      (Numeral.value v.quoteReserve.toList)
    rcases Check.numeral_cases v.baseReserve "value" with ⟨hbase, fault, hread'⟩ |
      ⟨hbase, hlong, hread'⟩ | ⟨hbase, hlength', hread'⟩
    · have hcurve : curveRule env v = positiveRule env "quote_asset_reserve"
          (Numeral.value v.quoteReserve.toList) := by
        simp only [curveRule, hread, hread', hok]
        rfl
      rw [hcurve]
      refine hfirst.congr ?_ fun _ p => ?_
      · simp [CurveLegible, hlength, hbase]
      · simp [BrokenCurve, hquote, hbase]
    · have hcurve : curveRule env v = .error (.numeralTooLong v.baseReserve.length) := by
        simp only [curveRule, hread, hread', hok]
        rfl
      rw [hcurve]
      exact finds_of_isTooLong (.read hlong) fun h =>
        Nat.not_le.mpr hlong ((h hquote).2 hbase).1
    · have hsecond := finds_positiveRule env .baseReserve "base_asset_reserve" rfl
        (Numeral.value v.baseReserve.toList)
      have hthird := finds_findingIf env
        (maxProduct < Numeral.value v.quoteReserve.toList * Numeral.value v.baseReserve.toList)
        .quoteReserve (.productTooWide
          (Numeral.value v.quoteReserve.toList * Numeral.value v.baseReserve.toList))
      rw [curveRule_eq_gather env hquote hlength hbase hlength']
      refine (hfirst.cons (hsecond.cons hthird)).gathered.congr ?_ fun _ p => ?_
      · simp only [CurveLegible, decide_eq_true_eq, Reason.isWritable, hlength, hlength', hquote,
          hbase, true_and, forall_const]
        rfl
      · simp only [BrokenCurve, decide_eq_true_eq, hquote, hbase, true_and]
        change _ ↔ _ ∨ _ ∨ p = .quoteReserve ∧ 2 ^ 256 - 1 < _
        grind

theorem finds_ofStep (r : Record) (s : Step) :
    Finds env (ofStep env r s) (s = .vamm → CurveLegible r.vamm)
      fun p => (∃ m ∈ s.requirements, p = .slot m ∧ ¬∃ a ∈ r.address m, IsAddress a) ∨
        s = .vamm ∧ BrokenCurve r.vamm p := by
  rw [ofStep]
  split
  next h =>
    refine ((finds_requirements env r s).append (finds_curveRule env r.vamm)).congr ?_
      fun _ p => ?_
    · simp [h]
    · simp [h]
  next h =>
    refine ((finds_requirements env r s).append .nil).congr ?_ fun _ p => ?_
    · simp [h]
    · simp [h]

/-! ## Template and steps -/

theorem legible_iff (r : Record) (steps : List Step) :
    r.Legible steps ↔ r.Legible [] ∧ ∀ s ∈ steps, s = .vamm → CurveLegible r.vamm := by
  constructor
  · intro h
    refine ⟨⟨h.numerals, h.decimals, h.fundingPeriod, fun hno => absurd hno List.not_mem_nil⟩, ?_⟩
    rintro s hs rfl hquote
    refine ⟨h.numerals _ (by simp [Record.numerals]) hquote, fun hbase => ?_⟩
    exact ⟨h.numerals _ (by simp [Record.numerals]) hbase, h.product hs hquote hbase⟩
  · rintro ⟨h, hcurve⟩
    exact {
      numerals := h.numerals
      decimals := h.decimals
      fundingPeriod := h.fundingPeriod
      product := fun hs hquote hbase => ((hcurve _ hs rfl hquote).2 hbase).2 }

theorem not_obeys_iff (r : Record) (steps : List Step) (p : Place) :
    ¬p.Obeys r steps ↔ ¬p.Obeys r [] ∨ ∃ s ∈ steps,
      (∃ m ∈ s.requirements, p = .slot m ∧ ¬∃ a ∈ r.address m, IsAddress a) ∨
        s = .vamm ∧ BrokenCurve r.vamm p := by
  cases p with
  | slot m => simp [Obeys, BrokenCurve]
  | _ => grind [Obeys, BrokenCurve]

/-- Rules of template and steps tell of exactly the places that are not as asked. -/
theorem finds_rules (r : Record) (steps : List Step) :
    Finds env (template env r ++ steps.flatMap (ofStep env r)) (r.Legible steps)
      fun p => ¬p.Obeys r steps :=
  ((finds_template env r).append (Finds.flatMap fun s _ => finds_ofStep env r s)).congr
    (legible_iff r steps) fun _ p => not_obeys_iff r steps p

end PerpRollout.Rules
