import PerpRollout.Proofs.Rules.Findings

/-!
# What the template rules find

The template rules of a record are gone through part by part: decimals, ratios,
margins, reserves, the market maker, assets. `finds_template` puts the parts together.
-/

namespace PerpRollout.Rules

open Place

variable (env : Option String)

/-! ## Decimals -/

theorem isWritable_of_inRange {n : Int} (h : InRange n) : Numeral.isWritable n = true := by
  have hle : n.natAbs ≤ 18 := by
    unfold InRange at h
    omega
  have h18 : Numeral.isWritable (18 : Nat) = true := by decide
  have hn : ((n.natAbs : Nat) : Int) = n := Int.natAbs_of_nonneg h.1
  rw [← hn]
  exact Numeral.isWritable_of_le hle h18

theorem judges_decimals (n : Int) :
    Check.Judges (Check.integer (.int n) (some 0) (some maxDecimals) "decimals")
      (Numeral.isWritable n = true) (InRange n) := by
  refine (Check.judges_between (by decide) (by decide) n "decimals").congr ?_ fun _ => Iff.rfl
  constructor
  · exact fun h _ => h
  · intro h
    by_cases hn : InRange n
    · exact isWritable_of_inRange hn
    · apply h
      rw [InRange, not_and_or, Int.not_le, Int.not_le] at hn
      exact hn

theorem decimalsInRange_iff (n : Int) : decimalsInRange n = true ↔ InRange n := by
  rw [decimalsInRange, Bool.and_eq_true, decide_eq_true_eq, decide_eq_true_eq]
  rfl

theorem finds_decimalsRule (s : Section) (p : Place) (hp : p.path = s.path "decimals")
    (decimals : Int) :
    Finds env [decimalsRule env s decimals] (Numeral.isWritable decimals = true)
      fun q => q = p ∧ ¬InRange decimals := by
  rw [decimalsRule, ← hp]
  exact finds_finding env (judges_decimals decimals) p

theorem finds_sameDecimalsRule (s : Section) (p : Place) (hp : p.path = s.path "decimals")
    (decimals reference : Int) :
    Finds env [sameDecimalsRule env s decimals reference] True
      fun q => q = p ∧ ¬Agrees decimals reference := by
  rw [sameDecimalsRule, ← hp]
  refine (finds_findingIf env _ p _).congr ?_ fun _ q => ?_
  · simp only [Bool.and_eq_true, decimalsInRange_iff, Reason.isWritable, true_iff]
    intro h
    exact ⟨isWritable_of_inRange h.1.2, isWritable_of_inRange h.1.1⟩
  · simp only [Bool.and_eq_true, decimalsInRange_iff, bne_iff_ne, Agrees, Classical.not_imp]
    grind

/-! ## Ratios -/

theorem scale?_of_nonneg {decimals : Int} (h : 0 ≤ decimals) :
    scale? decimals = .ok (some (10 ^ decimals.toNat)) := by
  rw [scale?, FixedPoint.scale, if_neg (Int.not_lt.mpr h)]
  rfl

theorem scale?_of_neg {decimals : Int} (h : decimals < 0)
    (hw : Numeral.isWritable decimals = true) : scale? decimals = .ok none := by
  simp [scale?, FixedPoint.scale, h, refuse, Fault.isWritable, hw]

theorem scale?_of_not_isWritable {decimals : Int} (h : decimals < 0)
    (hw : ¬Numeral.isWritable decimals = true) : scale? decimals = .error .integerTooLong := by
  simp [scale?, FixedPoint.scale, h, refuse, Fault.isWritable, hw]

/-- A ratio at a scale: the bound is told only when it is below a number that can be. -/
theorem judges_ratio_atMost (s name : String) (n : Nat) :
    Check.Judges ((Check.Chain.mk (.str s) name).isNumeral >>= Check.Chain.atMost n)
      (IsNumeral s → s.length ≤ Numeral.digitLimit)
      (IsNumeral s ∧ Numeral.value s.toList ≤ n) := by
  have hbound : ∀ chain, (Check.Chain.mk (.str s) name).isNumeral = .ok chain →
      Check.Judges (Check.Chain.atMost n chain) True (Numeral.value s.toList ≤ n) := by
    intro chain hchain
    obtain ⟨hs, hlength, rfl⟩ := Check.Chain.isNumeral_eq_ok hchain
    refine (Check.Chain.judges_atMost _ n name).congr ?_ fun _ => ?_
    · have hvalue := Check.isWritable_number hs hlength
      simp only [true_iff]
      intro h
      exact ⟨Numeral.isWritable_of_le (Nat.le_of_lt (Int.ofNat_lt.mp h)) hvalue, hvalue⟩
    · exact Int.ofNat_le.symm
  refine ((Check.Chain.judges_isNumeral s name).bind hbound).congr ?_ fun _ => Iff.rfl
  simp

theorem judges_checkRatio (decimals : Int) (name s : String) :
    Check.Judges (checkRatio decimals name s)
      ((decimals < 0 → Numeral.isWritable decimals = true) ∧
        (IsNumeral s → s.length ≤ Numeral.digitLimit))
      (IsRatio decimals s) := by
  by_cases hneg : decimals < 0
  · by_cases hw : Numeral.isWritable decimals = true
    · have hcheck : checkRatio decimals name s = (Check.Chain.mk (.str s) name).isNumeral := by
        rw [checkRatio, scale?_of_neg hneg hw]
        cases (Check.Chain.mk (.str s) name).isNumeral <;> rfl
      rw [hcheck]
      refine (Check.Chain.judges_isNumeral s name).congr ?_ fun _ => ?_
      · simp [hw]
      · simp [IsRatio, Int.not_le.mpr hneg]
    · have hcheck : checkRatio decimals name s = .error .integerTooLong := by
        rw [checkRatio, scale?_of_not_isWritable hneg hw]
        rfl
      rw [hcheck]
      exact Check.judges_of_isTooLong .shown fun h => hw (h.1 hneg)
  · have hcheck : checkRatio decimals name s =
        (Check.Chain.mk (.str s) name).isNumeral >>=
          Check.Chain.atMost (10 ^ decimals.toNat : Nat) := by
      rw [checkRatio, scale?_of_nonneg (Int.not_lt.mp hneg)]
      rfl
    rw [hcheck]
    refine (judges_ratio_atMost s name _).congr ?_ fun _ => ?_
    · simp [hneg]
    · simp [IsRatio, Int.not_lt.mp hneg]

theorem finds_ratioRule (s : Section) (p : Place) (field : String × String)
    (hp : p.path = s.path field.1) (decimals : Int) :
    Finds env [ratioRule env s decimals field]
      ((decimals < 0 → Numeral.isWritable decimals = true) ∧
        (IsNumeral field.2 → field.2.length ≤ Numeral.digitLimit))
      fun q => q = p ∧ ¬IsRatio decimals field.2 := by
  rw [ratioRule, ← hp]
  exact finds_finding env (judges_checkRatio decimals field.1 field.2) p

/-! ## Two numerals -/

/-- A rule on two numerals finds nothing unless both are numerals. -/
theorem finds_onNumerals {first second : String} {rule : Nat → Nat → Findings}
    {legible : Prop} {broken : Place → Prop}
    (hrule : IsNumeral first → first.length ≤ Numeral.digitLimit →
      IsNumeral second → second.length ≤ Numeral.digitLimit →
      Finds env [rule (Numeral.value first.toList) (Numeral.value second.toList)] legible broken) :
    Finds env [onNumerals first second rule]
      ((IsNumeral first → first.length ≤ Numeral.digitLimit) ∧
        (IsNumeral first → IsNumeral second → second.length ≤ Numeral.digitLimit ∧ legible))
      fun q => IsNumeral first ∧ IsNumeral second ∧ broken q := by
  rcases Check.numeral_cases first "value" with ⟨hfirst, fault, hread⟩ | ⟨hfirst, hlong, hread⟩ |
    ⟨hfirst, hlength, hread⟩
  · simp only [onNumerals, hread]
    exact finds_nothing (by simp [hfirst]) (by simp [hfirst])
  · simp only [onNumerals, hread]
    exact finds_of_isTooLong (.read hlong) fun h => Nat.not_le.mpr hlong (h.1 hfirst)
  · rcases Check.numeral_cases second "value" with ⟨hsecond, fault, hread'⟩ |
      ⟨hsecond, hlong, hread'⟩ | ⟨hsecond, hlength', hread'⟩
    · simp only [onNumerals, hread, hread']
      exact finds_nothing (by simp [hlength, hsecond]) (by simp [hsecond])
    · simp only [onNumerals, hread, hread']
      exact finds_of_isTooLong (.read hlong) fun h =>
        Nat.not_le.mpr hlong (h.2 hfirst hsecond).1
    · simp only [onNumerals, hread, hread']
      refine (hrule hfirst hlength hsecond hlength').congr ?_ fun _ q => ?_
      · simp [hfirst, hsecond, hlength, hlength']
      · simp [hfirst, hsecond]

theorem finds_marginRule (e : Engine) :
    Finds env [marginRule env e]
      ((IsNumeral e.initialMarginRatio →
          e.initialMarginRatio.length ≤ Numeral.digitLimit) ∧
        (IsNumeral e.initialMarginRatio → IsNumeral e.maintenanceMarginRatio →
          e.maintenanceMarginRatio.length ≤ Numeral.digitLimit))
      fun q => q = .maintenanceMargin ∧ IsNumeral e.initialMarginRatio ∧
        IsNumeral e.maintenanceMarginRatio ∧
        Numeral.value e.initialMarginRatio.toList <
          Numeral.value e.maintenanceMarginRatio.toList := by
  have hrule (hinitial : IsNumeral e.initialMarginRatio)
      (hlength : e.initialMarginRatio.length ≤ Numeral.digitLimit)
      (hmaintenance : IsNumeral e.maintenanceMarginRatio)
      (hlength' : e.maintenanceMarginRatio.length ≤ Numeral.digitLimit) :=
    (finds_findingIf env
      (Numeral.value e.initialMarginRatio.toList < Numeral.value e.maintenanceMarginRatio.toList)
      .maintenanceMargin
      (.marginsCross (Numeral.value e.maintenanceMarginRatio.toList)
        (Numeral.value e.initialMarginRatio.toList))).congr
      (by simp [Reason.isWritable, Check.isWritable_number hinitial hlength,
        Check.isWritable_number hmaintenance hlength'] : True ↔ _) fun _ _ => Iff.rfl
  refine Finds.congr (finds_onNumerals env hrule) ?_ fun _ q => ?_
  · simp
  · simp only [decide_eq_true_eq]
    grind

/-! ## The market maker -/

theorem finds_reserveRule (p : Place) (field : String × String)
    (hp : p.path = Section.vamm.path field.1) :
    Finds env [reserveRule env field]
      (IsNumeral field.2 → field.2.length ≤ Numeral.digitLimit)
      fun q => q = p ∧ ¬IsReserve field.2 := by
  rw [reserveRule, ← hp]
  have hmax : Numeral.isWritable maxReserve = true := by
    rw [Numeral.isWritable_natCast_iff]
    exact Nat.lt_of_lt_of_le (by decide : maxReserve < 10 ^ 39)
      (Nat.pow_le_pow_right (by decide) (by decide))
  refine (finds_finding env (Check.judges_numeral (by simpa using hmax) field.2 field.1) p).congr
    Iff.rfl fun _ q => ?_
  simp only [Option.mem_def, Option.some.injEq, forall_eq', Int.ofNat_le]
  rfl

theorem finds_assetRule (p : Place) (field : String × String)
    (hp : p.path = Section.vamm.path field.1) :
    Finds env [assetRule env field] True fun q => q = p ∧ ¬Text.blank field.2 = false := by
  rw [assetRule, ← hp]
  exact finds_finding env (Check.judges_text field.2 field.1) p

/-- A pair of the same asset twice is told about twice when the asset is blank. -/
theorem not_pair_iff (quote base : String) :
    ¬(Text.blank base = false ∧ base ≠ quote) ↔
      ¬Text.blank base = false ∨ (!quote.isEmpty && quote = base) = true := by
  have hempty : Text.blank "" = true := by decide
  rcases eq_or_ne base quote with rfl | hne
  · by_cases h : base = ""
    · simp [h, hempty]
    · simp [h]
  · simp [hne, hne.symm]

theorem finds_vammRules (v : Vamm) :
    Finds env (vammRules env v)
      (v.fundingPeriod < 1 → Numeral.isWritable v.fundingPeriod = true)
      fun q => q = .fundingPeriod ∧ ¬1 ≤ v.fundingPeriod ∨
        q = .quoteAsset ∧ ¬Text.blank v.quoteAsset = false ∨
        q = .baseAsset ∧ ¬(Text.blank v.baseAsset = false ∧ v.baseAsset ≠ v.quoteAsset) := by
  have hone : Numeral.isWritable 1 = true := by decide
  have hfunding := finds_finding env
    (Check.judges_atLeast hone v.fundingPeriod "funding_period") .fundingPeriod
  have hquote := finds_assetRule env .quoteAsset ("quote_asset", v.quoteAsset) rfl
  have hbase := finds_assetRule env .baseAsset ("base_asset", v.baseAsset) rfl
  have hsame := finds_findingIf env (!v.quoteAsset.isEmpty && v.quoteAsset = v.baseAsset)
    .baseAsset (.sameAsset v.quoteAsset)
  refine (hfunding.cons (hquote.cons (hbase.cons hsame))).congr ?_ fun _ q => ?_
  · simp [Reason.isWritable]
  · rw [not_pair_iff]
    grind

/-! ## Assets -/

/-- The symbols seen are those of the assets, blank ones apart. -/
def HasSeen (seen : List String) (assets : List Asset) : Prop :=
  ∀ s, s ∈ seen ↔ Text.blank s = false ∧ ∃ a ∈ assets, a.symbol = s

theorem HasSeen.append {seen : List String} {assets : List Asset} (h : HasSeen seen assets)
    (a : Asset) :
    HasSeen (if !Text.blank a.symbol then a.symbol :: seen else seen) (assets ++ [a]) := by
  intro s
  by_cases ha : Text.blank a.symbol = true
  · rw [if_neg (by simp [ha]), h s]
    refine and_congr_right fun hs => ?_
    have hne : a.symbol ≠ s := by
      rintro rfl
      rw [ha] at hs
      cases hs
    simp [or_and_right, exists_or, hne]
  · rw [Bool.not_eq_true] at ha
    rw [if_pos (by simp [ha]), List.mem_cons, h s]
    simp only [List.mem_append, List.mem_singleton, or_and_right, exists_or, exists_eq_left]
    constructor
    · rintro (rfl | ⟨hs, hmem⟩)
      · exact ⟨ha, .inr rfl⟩
      · exact ⟨hs, .inl hmem⟩
    · rintro ⟨hs, hmem | rfl⟩
      · exact .inr ⟨hs, hmem⟩
      · exact .inl rfl

/-- The place of the asset of that index is not as the template asks. -/
def BrokenAsset (assets : List Asset) (index : Nat) (p : Place) : Prop :=
  ∃ a ∈ assets[index]?,
    p = .symbol index ∧ ¬(Text.blank a.symbol = false ∧
      ∀ b ∈ assets.take index, b.symbol ≠ a.symbol) ∨
    p = .assetDecimals index ∧ ¬InRange a.decimals

/-- The rules of one asset, after the assets whose symbols have been seen. -/
theorem finds_asset {before : List Asset} {seen : List String} (hseen : HasSeen seen before)
    (a : Asset) (rest : List Asset) :
    Finds env
      [finding env (Place.symbol before.length).path
          (Check.text (.str a.symbol) [] false "symbol"),
        finding env (Place.assetDecimals before.length).path
          (Check.integer (.int a.decimals) (some 0) (some maxDecimals) "decimals"),
        findingIf (!Text.blank a.symbol && seen.contains a.symbol) env
          (Place.symbol before.length).path (.repeatedAsset a.symbol)]
      (Numeral.isWritable a.decimals = true)
      (BrokenAsset (before ++ a :: rest) before.length) := by
  have hsymbol := finds_finding env (Check.judges_text a.symbol "symbol")
    (.symbol before.length)
  have hdecimals := finds_finding env (judges_decimals a.decimals)
    (.assetDecimals before.length)
  have hown := finds_findingIf env (!Text.blank a.symbol && seen.contains a.symbol)
    (.symbol before.length) (.repeatedAsset a.symbol)
  refine (hsymbol.cons (hdecimals.cons hown)).congr ?_ fun _ q => ?_
  · simp [Reason.isWritable]
  · have hget : (before ++ a :: rest)[before.length]? = some a := by simp
    have hrepeated : (!Text.blank a.symbol && seen.contains a.symbol) = true ↔
        Text.blank a.symbol = false ∧ ∃ b ∈ before, b.symbol = a.symbol := by
      simp [hseen a.symbol]
    rw [BrokenAsset, hget, List.take_left, hrepeated]
    by_cases hblank : Text.blank a.symbol = false
    · simp [hblank, or_comm]
    · simp [hblank]

/-- The assets to come, after those whose symbols have been seen: each is told about
under its index in all assets. -/
theorem finds_assetRules {before : List Asset} {seen : List String}
    (hseen : HasSeen seen before) (rest : List Asset) :
    Finds env (assetRules env before.length seen rest)
      (∀ a ∈ rest, Numeral.isWritable a.decimals = true)
      fun p => ∃ index, before.length ≤ index ∧ BrokenAsset (before ++ rest) index p := by
  -- The index of an asset is the number of assets before it, so these change along with it.
  induction rest generalizing before seen with
  | nil =>
      refine Finds.nil.congr (by simp) fun _ p => ?_
      simp only [List.append_nil, iff_false, BrokenAsset]
      rintro ⟨index, hindex, a, ha, -⟩
      rw [List.getElem?_eq_none hindex] at ha
      cases ha
  | cons a rest ih =>
      have hnext := ih (hseen.append a)
      rw [List.length_append, List.append_assoc] at hnext
      refine ((finds_asset env hseen a rest).append hnext).congr ?_ fun _ p => ?_
      · simp
      · constructor
        · rintro ⟨index, hindex, hbroken⟩
          rcases Nat.eq_or_lt_of_le hindex with rfl | hlt
          · exact .inl hbroken
          · exact .inr ⟨index, hlt, hbroken⟩
        · rintro (hbroken | ⟨index, hindex, hbroken⟩)
          · exact ⟨before.length, Nat.le_refl _, hbroken⟩
          · exact ⟨index, Nat.le_of_succ_le hindex, hbroken⟩

/-! ## All template rules -/

theorem finds_decimals (r : Record) :
    Finds env
      [decimalsRule env .priceFeed r.priceFeed.decimals,
        decimalsRule env .engine r.engine.decimals,
        decimalsRule env .vamm r.vamm.decimals,
        sameDecimalsRule env .priceFeed r.priceFeed.decimals r.engine.decimals,
        sameDecimalsRule env .vamm r.vamm.decimals r.engine.decimals]
      (∀ n ∈ [r.priceFeed.decimals, r.engine.decimals, r.vamm.decimals],
        Numeral.isWritable n = true)
      fun p => p ∈ [priceFeedDecimals, engineDecimals, vammDecimals] ∧ ¬p.Obeys r [] := by
  refine ((finds_decimalsRule env .priceFeed .priceFeedDecimals rfl _).cons
    ((finds_decimalsRule env .engine .engineDecimals rfl _).cons
      ((finds_decimalsRule env .vamm .vammDecimals rfl _).cons
        ((finds_sameDecimalsRule env .priceFeed .priceFeedDecimals rfl _ _).cons
          (finds_sameDecimalsRule env .vamm .vammDecimals rfl _ _))))).congr ?_ fun _ p => ?_
  · simp
  · cases p <;> grind [Obeys]

theorem finds_ratios (r : Record) :
    Finds env
      ((engineRatios r.engine).map (ratioRule env .engine r.engine.decimals) ++
        (vammRatios r.vamm).map (ratioRule env .vamm r.vamm.decimals) ++
        [marginRule env r.engine])
      ((r.engine.decimals < 0 → Numeral.isWritable r.engine.decimals = true) ∧
        (r.vamm.decimals < 0 → Numeral.isWritable r.vamm.decimals = true) ∧
        ∀ s ∈ (engineRatios r.engine ++ vammRatios r.vamm).map Prod.snd,
          IsNumeral s → s.length ≤ Numeral.digitLimit)
      fun p => p ∈ [initialMargin, maintenanceMargin, liquidationFee, toll, spread,
        fluctuationLimit] ∧ ¬p.Obeys r [] := by
  have hengine := (finds_ratioRule env .engine .initialMargin
    ("initial_margin_ratio", r.engine.initialMarginRatio) rfl r.engine.decimals).cons
    ((finds_ratioRule env .engine .maintenanceMargin
      ("maintenance_margin_ratio", r.engine.maintenanceMarginRatio) rfl r.engine.decimals).cons
      (finds_ratioRule env .engine .liquidationFee
        ("liquidation_fee", r.engine.liquidationFee) rfl r.engine.decimals))
  have hvamm := (finds_ratioRule env .vamm .toll ("toll_ratio", r.vamm.tollRatio) rfl
    r.vamm.decimals).cons
    ((finds_ratioRule env .vamm .spread ("spread_ratio", r.vamm.spreadRatio) rfl
      r.vamm.decimals).cons
      (finds_ratioRule env .vamm .fluctuationLimit
        ("fluctuation_limit_ratio", r.vamm.fluctuationLimitRatio) rfl r.vamm.decimals))
  refine ((hengine.append hvamm).append (finds_marginRule env r.engine)).congr ?_ fun _ p => ?_
  · simp [engineRatios, vammRatios]
    grind
  · cases p <;> grind [Obeys]

theorem finds_market (r : Record) :
    Finds env ((reserves r.vamm).map (reserveRule env) ++ vammRules env r.vamm)
      ((∀ s ∈ [r.vamm.quoteReserve, r.vamm.baseReserve],
          IsNumeral s → s.length ≤ Numeral.digitLimit) ∧
        (r.vamm.fundingPeriod < 1 → Numeral.isWritable r.vamm.fundingPeriod = true))
      fun p => p ∈ [quoteReserve, baseReserve, fundingPeriod, quoteAsset, baseAsset] ∧
        ¬p.Obeys r [] := by
  have hreserves := (finds_reserveRule env .quoteReserve
    ("quote_asset_reserve", r.vamm.quoteReserve) rfl).cons
    (finds_reserveRule env .baseReserve ("base_asset_reserve", r.vamm.baseReserve) rfl)
  refine (hreserves.append (finds_vammRules env r.vamm)).congr ?_ fun _ p => ?_
  · simp
  · cases p <;> simp [Obeys]

theorem finds_assets (r : Record) :
    Finds env (assetRules env 0 [] r.assets)
      (∀ a ∈ r.assets, Numeral.isWritable a.decimals = true)
      fun p => p.asset?.isSome = true ∧ ¬p.Obeys r [] := by
  have hnone : HasSeen [] [] := by simp [HasSeen]
  refine (finds_assetRules env hnone r.assets).congr Iff.rfl fun _ p => ?_
  cases p <;> simp [Obeys, BrokenAsset, asset?]

theorem legible_nil_iff (r : Record) :
    r.Legible [] ↔
      (∀ s ∈ (engineRatios r.engine ++ vammRatios r.vamm).map Prod.snd,
        IsNumeral s → s.length ≤ Numeral.digitLimit) ∧
      (∀ s ∈ [r.vamm.quoteReserve, r.vamm.baseReserve],
        IsNumeral s → s.length ≤ Numeral.digitLimit) ∧
      (∀ n ∈ [r.priceFeed.decimals, r.engine.decimals, r.vamm.decimals],
        Numeral.isWritable n = true) ∧
      (∀ a ∈ r.assets, Numeral.isWritable a.decimals = true) ∧
      (r.vamm.fundingPeriod < 1 → Numeral.isWritable r.vamm.fundingPeriod = true) := by
  have hnumerals : r.numerals = (engineRatios r.engine ++ vammRatios r.vamm).map Prod.snd ++
      [r.vamm.quoteReserve, r.vamm.baseReserve] := rfl
  constructor
  · intro h
    have hsplit := List.forall_mem_append.mp (hnumerals ▸ h.numerals)
    have hdecimals := List.forall_mem_append.mp h.decimals
    exact ⟨hsplit.1, hsplit.2, hdecimals.1, List.forall_mem_map.mp hdecimals.2, h.fundingPeriod⟩
  · rintro ⟨hratios, hreserves, hsections, hassets, hfunding⟩
    exact {
      numerals := hnumerals ▸ List.forall_mem_append.mpr ⟨hratios, hreserves⟩
      decimals := List.forall_mem_append.mpr ⟨hsections, List.forall_mem_map.mpr hassets⟩
      fundingPeriod := hfunding
      product := fun h => absurd h List.not_mem_nil }

/-- The template rules tell of exactly the places that are not as the template asks. -/
theorem finds_template (r : Record) :
    Finds env (template env r) (r.Legible []) fun p => ¬p.Obeys r [] := by
  have h := (((finds_decimals env r).append (finds_ratios env r)).append
    (finds_market env r)).append (finds_assets env r)
  simp only [List.append_assoc] at h
  simp only [template, List.append_assoc]
  refine h.congr ?_ fun _ p => ?_
  · rw [legible_nil_iff]
    simp only [List.forall_mem_cons]
    grind
  · cases p <;> simp [asset?, Obeys]

end PerpRollout.Rules
