import Mathlib.Algebra.Group.Nat.Defs
import Mathlib.Data.List.Nodup
import PerpRollout.Proofs.Check
import PerpRollout.Proofs.Numeral
import PerpRollout.Rules

/-!
# The places of a record and what is asked of them

The places that rules are about are listed as a type, with the path that findings
about each are listed under; different places have different paths
(`Place.path_injective`). `Place.Obeys` says of each place what is asked of it, by the
template and by the steps in question, without reference to how a record is checked.

Where a number has too many digits the checks say nothing of any place: `Legible` is
what it takes for them to say something.
-/

namespace PerpRollout

/-- A place of a record that there are rules about. -/
inductive Place where
  | priceFeedDecimals
  | engineDecimals
  | vammDecimals
  | initialMargin
  | maintenanceMargin
  | liquidationFee
  | toll
  | spread
  | fluctuationLimit
  | quoteReserve
  | baseReserve
  | fundingPeriod
  | quoteAsset
  | baseAsset
  | slot (m : Module)
  /-- The symbol of the whitelisted asset of that index. -/
  | symbol (index : Nat)
  /-- The decimals of the whitelisted asset of that index. -/
  | assetDecimals (index : Nat)
  deriving DecidableEq, Repr

namespace Place

/-- The path that findings about the place are listed under. -/
def path : Place → String
  | .priceFeedDecimals => Section.priceFeed.path "decimals"
  | .engineDecimals => Section.engine.path "decimals"
  | .vammDecimals => Section.vamm.path "decimals"
  | .initialMargin => Section.engine.path "initial_margin_ratio"
  | .maintenanceMargin => Section.engine.path "maintenance_margin_ratio"
  | .liquidationFee => Section.engine.path "liquidation_fee"
  | .toll => Section.vamm.path "toll_ratio"
  | .spread => Section.vamm.path "spread_ratio"
  | .fluctuationLimit => Section.vamm.path "fluctuation_limit_ratio"
  | .quoteReserve => Section.vamm.path "quote_asset_reserve"
  | .baseReserve => Section.vamm.path "base_asset_reserve"
  | .fundingPeriod => Section.vamm.path "funding_period"
  | .quoteAsset => Section.vamm.path "quote_asset"
  | .baseAsset => Section.vamm.path "base_asset"
  | .slot m => m.path
  | .symbol index => Rules.assetPath index ++ ".symbol"
  | .assetDecimals index => Rules.assetPath index ++ ".decimals"

/-! ## Paths tell places apart -/

/-- The places that every record has, those of its assets apart. -/
def fixed : List Place :=
  [.priceFeedDecimals, .engineDecimals, .vammDecimals, .initialMargin, .maintenanceMargin,
    .liquidationFee, .toll, .spread, .fluctuationLimit, .quoteReserve, .baseReserve,
    .fundingPeriod, .quoteAsset, .baseAsset] ++ Module.all.map .slot

/-- The place of an asset, with its index and the end of its path. -/
def asset? : Place → Option (Nat × String)
  | .symbol index => some (index, ".symbol")
  | .assetDecimals index => some (index, ".decimals")
  | _ => none

theorem mem_fixed {p : Place} (h : p.asset? = none) : p ∈ fixed := by
  cases p with
  | slot m => exact List.mem_append_right _ (List.mem_map_of_mem m.mem_all)
  | symbol index => cases h
  | assetDecimals index => cases h
  | _ => decide

theorem nodup_path_fixed : (fixed.map path).Nodup := by
  decide

/-- Only the path of an asset has a bracket in it. -/
theorem bracket_not_mem_path : ∀ p ∈ fixed, '[' ∉ p.path.toList := by
  decide

theorem path_of_asset {p : Place} {index : Nat} {ending : String}
    (h : p.asset? = some (index, ending)) :
    p.path.toList = "initialAssets".toList ++ '[' :: (Nat.toDigits 10 index ++
      ']' :: ending.toList) := by
  cases p with
  | symbol i =>
      cases h
      simp [path, Rules.assetPath, Numeral.ofNat, Section.key]
  | assetDecimals i =>
      cases h
      simp [path, Rules.assetPath, Numeral.ofNat, Section.key]
  | _ => cases h

theorem asset?_injective {p q : Place} (hp : p.asset?.isSome) (h : p.asset? = q.asset?) :
    p = q := by
  cases p <;> cases q <;> simp_all [asset?]

theorem bracket_not_mem_toDigits (n : Nat) : ']' ∉ Nat.toDigits 10 n := by
  intro h
  have hdigit := Nat.isDigit_of_mem_toDigits (by decide) (by decide) h
  cases hdigit

theorem bracket_not_mem_ending {p : Place} {index : Nat} {ending : String}
    (h : p.asset? = some (index, ending)) : ']' ∉ ending.toList := by
  cases p <;> cases h <;> decide

/-- Findings under one path are about one place. -/
theorem path_injective {p q : Place} (h : p.path = q.path) : p = q := by
  have hlists := congrArg String.toList h
  cases hp : p.asset? with
  | none =>
      cases hq : q.asset? with
      | none => exact List.inj_on_of_nodup_map nodup_path_fixed (mem_fixed hp) (mem_fixed hq) h
      | some x =>
          have hno := bracket_not_mem_path p (mem_fixed hp)
          rw [hlists, path_of_asset hq] at hno
          simp at hno
  | some x =>
      cases hq : q.asset? with
      | none =>
          have hno := bracket_not_mem_path q (mem_fixed hq)
          rw [← hlists, path_of_asset hp] at hno
          simp at hno
      | some y =>
          obtain ⟨i, ending⟩ := x
          obtain ⟨j, ending'⟩ := y
          rw [path_of_asset hp, path_of_asset hq, List.append_cancel_left_eq, List.cons.injEq,
            List.append_cons_inj_of_notMem (bracket_not_mem_toDigits i)
              (bracket_not_mem_ending hp)] at hlists
          obtain ⟨-, hdigits, -, hending⟩ := hlists
          have hindex : i = j := by
            rw [← Numeral.value_toDigits i, hdigits, Numeral.value_toDigits]
          apply asset?_injective (by rw [hp]; rfl)
          rw [hp, hq, hindex, String.toList_injective hending]

/-! ## What is asked of a place -/

/-- Decimals that a contract takes. -/
def InRange (decimals : Int) : Prop :=
  0 ≤ decimals ∧ decimals ≤ 18

/-- A numeral of at most one at the scale, unless the scale is none. -/
def IsRatio (decimals : Int) (s : String) : Prop :=
  IsNumeral s ∧ (0 ≤ decimals → Numeral.value s.toList ≤ 10 ^ decimals.toNat)

/-- A numeral of at most 128 bits. -/
def IsReserve (s : String) : Prop :=
  IsNumeral s ∧ Numeral.value s.toList ≤ 2 ^ 128 - 1

/-- Two numbers of at most 128 bits have a product of at most 256 bits. -/
theorem IsReserve.product_le {quote base : String} (hquote : IsReserve quote)
    (hbase : IsReserve base) :
    Numeral.value quote.toList * Numeral.value base.toList ≤ 2 ^ 256 - 1 :=
  Nat.le_trans (Nat.mul_le_mul hquote.2 hbase.2) (by decide)

/-- The decimals agree with those of the engine, as far as both can be taken. -/
def Agrees (decimals reference : Int) : Prop :=
  InRange decimals → InRange reference → decimals = reference

/-- The place of the record is as the template asks, and as the steps ask. -/
def Obeys (r : Record) (steps : List Step) : Place → Prop
  | .priceFeedDecimals =>
    InRange r.priceFeed.decimals ∧ Agrees r.priceFeed.decimals r.engine.decimals
  | .engineDecimals => InRange r.engine.decimals
  | .vammDecimals => InRange r.vamm.decimals ∧ Agrees r.vamm.decimals r.engine.decimals
  | .initialMargin => IsRatio r.engine.decimals r.engine.initialMarginRatio
  | .maintenanceMargin =>
    IsRatio r.engine.decimals r.engine.maintenanceMarginRatio ∧
      (IsNumeral r.engine.initialMarginRatio → IsNumeral r.engine.maintenanceMarginRatio →
        Numeral.value r.engine.maintenanceMarginRatio.toList ≤
          Numeral.value r.engine.initialMarginRatio.toList)
  | .liquidationFee => IsRatio r.engine.decimals r.engine.liquidationFee
  | .toll => IsRatio r.vamm.decimals r.vamm.tollRatio
  | .spread => IsRatio r.vamm.decimals r.vamm.spreadRatio
  | .fluctuationLimit => IsRatio r.vamm.decimals r.vamm.fluctuationLimitRatio
  | .quoteReserve =>
    IsReserve r.vamm.quoteReserve ∧
      (.vamm ∈ steps → IsNumeral r.vamm.quoteReserve →
        Numeral.value r.vamm.quoteReserve.toList ≠ 0 ∧
          (IsNumeral r.vamm.baseReserve →
            Numeral.value r.vamm.quoteReserve.toList * Numeral.value r.vamm.baseReserve.toList ≤
              2 ^ 256 - 1))
  | .baseReserve =>
    IsReserve r.vamm.baseReserve ∧
      (.vamm ∈ steps → IsNumeral r.vamm.quoteReserve → IsNumeral r.vamm.baseReserve →
        Numeral.value r.vamm.baseReserve.toList ≠ 0)
  | .fundingPeriod => 1 ≤ r.vamm.fundingPeriod
  | .quoteAsset => Text.blank r.vamm.quoteAsset = false
  | .baseAsset => Text.blank r.vamm.baseAsset = false ∧ r.vamm.baseAsset ≠ r.vamm.quoteAsset
  | .slot m => (∃ s ∈ steps, m ∈ s.requirements) → ∃ a ∈ r.address m, IsAddress a
  | .symbol index =>
    ∀ a ∈ r.assets[index]?,
      Text.blank a.symbol = false ∧ ∀ b ∈ r.assets.take index, b.symbol ≠ a.symbol
  | .assetDecimals index => ∀ a ∈ r.assets[index]?, InRange a.decimals

end Place

/-- The texts of a record that are read as numerals. -/
def Record.numerals (r : Record) : List String :=
  [r.engine.initialMarginRatio, r.engine.maintenanceMarginRatio, r.engine.liquidationFee,
    r.vamm.tollRatio, r.vamm.spreadRatio, r.vamm.fluctuationLimitRatio,
    r.vamm.quoteReserve, r.vamm.baseReserve]

/-- The decimals of a record, of its sections and its assets. -/
def Record.allDecimals (r : Record) : List Int :=
  [r.priceFeed.decimals, r.engine.decimals, r.vamm.decimals] ++ r.assets.map Asset.decimals

/-- No number has too many digits to be read or, where it is out of bounds, to be shown. -/
structure Record.Legible (r : Record) (steps : List Step) : Prop where
  numerals : ∀ s ∈ r.numerals, IsNumeral s → s.length ≤ Numeral.digitLimit
  decimals : ∀ n ∈ r.allDecimals, Numeral.isWritable n = true
  fundingPeriod : r.vamm.fundingPeriod < 1 → Numeral.isWritable r.vamm.fundingPeriod = true
  /-- A product of the reserves that is too wide is shown. -/
  product : .vamm ∈ steps → IsNumeral r.vamm.quoteReserve → IsNumeral r.vamm.baseReserve →
    2 ^ 256 - 1 <
      Numeral.value r.vamm.quoteReserve.toList * Numeral.value r.vamm.baseReserve.toList →
    Numeral.isWritable
      (Numeral.value r.vamm.quoteReserve.toList * Numeral.value r.vamm.baseReserve.toList) = true

end PerpRollout
