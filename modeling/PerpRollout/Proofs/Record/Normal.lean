import PerpRollout.Proofs.Record.Reordered

/-!
# The written form of a record

Whatever accepted value a record was read from, what is written for it is a normal form:
it is read back as the same record, and that one is written in the same way. Reading does
not look at the order of the keys (`Record.ofJson_congr`), so two records are the same
as soon as they are written alike up to that order. All this holds for the records that
can come about (`Record.Built`): those that were read, and those that resolving makes of
them.
-/

namespace PerpRollout

namespace Record

open Section Datum

variable {raw : Json} {r : Record}

/-! ## What is written for a record -/

theorem distinctKeys_written {s : Section} {values : List (String × Datum)} (h : s.Fits values) :
    (Json.obj (written values)).DistinctKeys := by
  have hnodup : (values.map Prod.fst).Nodup := names_of_fits h ▸ nodup_fieldNames s
  refine ⟨hnodup.sublist (keys_written_sublist values), Json.distinctKeysMembers_iff.mpr ?_⟩
  rintro ⟨name, v⟩ hm
  obtain ⟨d, -, hv⟩ := mem_written_iff.mp hm
  obtain ⟨n, -, rfl⟩ | ⟨s, rfl⟩ := json?_cases hv <;> trivial

theorem distinctKeys_toJson (r : Record) : r.toJson.DistinctKeys := by
  refine ⟨?_, Json.distinctKeysMembers_iff.mpr ?_⟩
  · rw [keys_toJson]
    decide
  · intro m hm
    obtain ⟨s, -, rfl⟩ := List.mem_map.mp hm
    by_cases hs : s ∈ objectSections
    · rw [sectionJson_eq r hs]
      exact distinctKeys_written (fits_sectionValues r hs)
    · have hassets : s = .initialAssets := by
        revert hs
        cases s <;> decide
      subst hassets
      refine Json.distinctKeysItems_iff.mpr ?_
      intro v hv
      obtain ⟨a, -, rfl⟩ := List.mem_map.mp hv
      rw [Asset.toJson_eq]
      exact distinctKeys_written a.fits_values

/-- A record is read back from what is written for it with the keys in order. -/
theorem ofJson_sortKeys_toJson (h : r.IsProper) : ofJson r.toJson.sortKeys = .ok r :=
  have distinct := distinctKeys_toJson r
  ofJson_congr (Json.reordered_sortKeys distinct) distinct (isLegible_toJson h) (ofJson_toJson h)

/-! ## Records that can come about -/

/-- A record that was read, or comes by resolving from one that was. -/
inductive Built : Record → Prop
  | read {raw : Json} {r : Record} (h : ofJson raw = .ok r) : Built r
  | resolved {r r' : Record} {module address : Json} (built : Built r)
      (h : (r.withAddress module address).result = .ok r') : Built r'

theorem isProper_of_withAddress {r' : Record} {module address : Json} (h : r.IsProper)
    (hr' : (r.withAddress module address).result = .ok r') : r'.IsProper := by
  obtain ⟨m, a, -, -, ha, rfl⟩ := Record.result_withAddress_eq_ok_iff.mp hr'
  exact Record.isProper_setAddress h m ha.1

theorem Built.isProper (built : Built r) : r.IsProper := by
  induction built with
  | read h => exact isProper_of_ofJson h
  | resolved _ h ih => exact isProper_of_withAddress ih h

theorem eq_of_ofJson_eq {raw raw' : Json} {r' : Record} (h : ofJson raw = .ok r)
    (h' : ofJson raw' = .ok r') (heq : raw = raw') : r = r' := by
  rw [← heq, h] at h'
  exact Except.ok.inj h'

/-- A record that can come about is read back from what is written for it, so it is the
same as any other one that is written alike, whatever the order of the keys. What is
written for it is a normal form of each value that it is read from: it is read as the
same record, and all that is read from it is written as it stands. -/
theorem ofJson_toJson_of_built (built : Built r) :
    ofJson r.toJson = .ok r ∧
    (∀ r', Built r' → (r.toJson = r'.toJson ↔ r = r') ∧
      (r.toJson.sortKeys = r'.toJson.sortKeys ↔ r = r')) ∧
    ∀ raw, ofJson raw = .ok r → ofJson r.toJson = ofJson raw ∧
      ∀ r', ofJson r.toJson = .ok r' → r'.toJson = r.toJson := by
  have hread := ofJson_toJson built.isProper
  refine ⟨hread, ?_, ?_⟩
  · intro r' built'
    constructor
    · constructor
      · exact eq_of_ofJson_eq hread (ofJson_toJson built'.isProper)
      · exact congrArg toJson
    · constructor
      · exact eq_of_ofJson_eq (ofJson_sortKeys_toJson built.isProper)
          (ofJson_sortKeys_toJson built'.isProper)
      · intro h
        rw [h]
  · intro raw hraw
    refine ⟨hread.trans hraw.symm, ?_⟩
    intro r' hr'
    rw [hread] at hr'
    cases hr'
    rfl

/-- A value with integers in place of numerals, a decimals field that is missing, slots
that are empty in three ways, and keys in no particular order. -/
def loose : Json :=
  .obj [
    ("vammInitMsg", .obj [("quote_asset", .str "usd"), ("decimals", .int 6),
      ("base_asset", .str "eth"), ("quote_asset_reserve", .int 1000),
      ("base_asset_reserve", .str "100"), ("funding_period", .int 3600), ("toll_ratio", .int (-1)),
      ("spread_ratio", .str ""), ("fluctuation_limit_ratio", .str "0"), ("pricefeed", .str "")]),
    ("initialAssets", .arr [.obj [("symbol", .str "usd")]]),
    ("priceFeedInitMsg", .obj [("oracle_hub_contract", .null), ("decimals", .int 6)]),
    ("engineInitMsg", .obj [("fee_pool", .str "fees"), ("decimals", .int 6),
      ("initial_margin_ratio", .int 62500), ("maintenance_margin_ratio", .str "50000"),
      ("liquidation_fee", .str "0")])]

/-- The record of that value. -/
def tight : Record where
  priceFeed := ⟨6, none⟩
  engine := ⟨6, "62500", "50000", "0", none, some "fees", none⟩
  vamm := ⟨6, "usd", "eth", "1000", "100", 3600, "-1", "", "0", none⟩
  assets := [⟨"usd", none, 6⟩]

theorem ofJson_loose : ofJson loose = .ok tight :=
  toOption_eq_some_iff.mp (by decide +kernel)

theorem ofJson_toJson_of_built_of_loose :
    Built (tight.setAddress .pricefeed "feed") ∧
      ofJson (tight.setAddress .pricefeed "feed").toJson =
        .ok (tight.setAddress .pricefeed "feed") ∧
      ofJson tight.toJson = ofJson loose := by
  have resolved : (tight.withAddress (.str " PriceFeed") (.str "feed")).result =
      .ok (tight.setAddress .pricefeed "feed") := rfl
  have built : Built (tight.setAddress .pricefeed "feed") := .resolved (.read ofJson_loose) resolved
  have again := (ofJson_toJson_of_built (.read ofJson_loose)).2.2 loose ofJson_loose
  exact ⟨built, (ofJson_toJson_of_built built).1, again.1⟩

end Record

end PerpRollout
