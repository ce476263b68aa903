import PerpRollout.Failure
import PerpRollout.FixedPoint
import PerpRollout.Json.Overlay

/-!
# Bundled environments

The deployment parameters that come with the library.  Every environment is the
shared template with a small override laid on top; addresses are null until the
contracts they belong to are deployed.
-/

namespace PerpRollout.Environment

def defaultFundingPeriod : Int := 3600

/-- The parameters that all environments share. -/
def template : Json := .obj [
  ("initialAssets", .arr []),
  ("insuranceFundInitMsg", .obj []),
  ("priceFeedInitMsg", .obj [
    ("decimals", .int FixedPoint.defaultDecimals),
    ("oracle_hub_contract", .null)]),
  ("engineInitMsg", .obj [
    ("decimals", .int FixedPoint.defaultDecimals),
    ("insurance_fund", .null),
    ("fee_pool", .null),
    ("eligible_collateral", .null),
    ("initial_margin_ratio", .str "0"),
    ("maintenance_margin_ratio", .str "0"),
    ("liquidation_fee", .str "0")]),
  ("vammInitMsg", .obj [
    ("decimals", .int FixedPoint.defaultDecimals),
    ("pricefeed", .null),
    ("quote_asset", .str ""),
    ("base_asset", .str ""),
    ("quote_asset_reserve", .str "0"),
    ("base_asset_reserve", .str "0"),
    ("funding_period", .int defaultFundingPeriod),
    ("toll_ratio", .str "0"),
    ("spread_ratio", .str "0"),
    ("fluctuation_limit_ratio", .str "0")])]

/-- What each environment changes. -/
def overrides : List (String × Json) := [
  ("juno_testnet", .obj [
    ("engineInitMsg", .obj [
      ("initial_margin_ratio", .str "62500"),
      ("maintenance_margin_ratio", .str "62500"),
      ("liquidation_fee", .str "12500")]),
    ("vammInitMsg", .obj [
      ("quote_asset", .str "mUSD"),
      ("base_asset", .str "juno"),
      ("quote_asset_reserve", .str "2800000000"),
      ("base_asset_reserve", .str "1000000000"),
      ("toll_ratio", .str "1250")])]),
  ("osmo_testnet", .obj [
    ("engineInitMsg", .obj [
      ("initial_margin_ratio", .str "62500"),
      ("maintenance_margin_ratio", .str "62500"),
      ("liquidation_fee", .str "12500")]),
    ("vammInitMsg", .obj [
      ("quote_asset", .str "mUSD"),
      ("base_asset", .str "osmo"),
      ("quote_asset_reserve", .str "1640000000"),
      ("base_asset_reserve", .str "1000000000"),
      ("toll_ratio", .str "1250")])]),
  ("local", .obj [
    ("engineInitMsg", .obj [
      ("initial_margin_ratio", .str "50000"),
      ("maintenance_margin_ratio", .str "50000"),
      ("liquidation_fee", .str "50000")]),
    ("vammInitMsg", .obj [
      ("quote_asset", .str "USDC"),
      ("base_asset", .str "ETH"),
      ("quote_asset_reserve", .str "1200000000000"),
      ("base_asset_reserve", .str "1000000000")])])]

/-- The written record of each environment. -/
def records : List (String × Json) :=
  overrides.map fun (name, override) => (name, template.overlay override)

def names : List String :=
  records.map Prod.fst

def record (environment : Json) : Except Failure Json :=
  let missing := .error (.about environment (.notFound · (Text.sortNames names)))
  match environment with
  | .str name =>
    match Json.member? name records with
    | some raw => .ok raw
    | none => missing
  | .arr _ => .error (.notAKey .arr)
  | .obj _ => .error (.notAKey .obj)
  | _ => missing

end PerpRollout.Environment
