import PerpRollout.FixedPoint
import PerpRollout.Record.Schema

/-!
# Deployment records

A record holds everything needed to instantiate the contract modules of one
environment: the messages of the price feed, the margin engine and the virtual
market maker, and the assets to whitelist.  The insurance fund is instantiated
without parameters, so nothing is kept for it.

`Record.ofJson` reads the written form and `Record.toJson` writes it.
-/

namespace PerpRollout

/-- The message that instantiates the price feed. -/
structure PriceFeed where
  decimals : Int
  oracleHub : Option String
  deriving DecidableEq, Repr

/-- The message that instantiates the margin engine. -/
structure Engine where
  decimals : Int
  initialMarginRatio : String
  maintenanceMarginRatio : String
  liquidationFee : String
  insuranceFund : Option String
  feePool : Option String
  eligibleCollateral : Option String
  deriving DecidableEq, Repr

/-- The message that instantiates the virtual market maker.  The reserves seed
the constant-product curve. -/
structure Vamm where
  decimals : Int
  quoteAsset : String
  baseAsset : String
  quoteReserve : String
  baseReserve : String
  fundingPeriod : Int
  tollRatio : String
  spreadRatio : String
  fluctuationLimitRatio : String
  pricefeed : Option String
  deriving DecidableEq, Repr

structure Asset where
  symbol : String
  address : Option String
  decimals : Int
  deriving DecidableEq, Repr

/-- The deployment record of one environment. -/
structure Record where
  priceFeed : PriceFeed
  engine : Engine
  vamm : Vamm
  assets : List Asset
  deriving DecidableEq, Repr

namespace PriceFeed

/-- The section with these field values. -/
def ofData (data : List (String × Datum)) : PriceFeed where
  decimals := Datum.integerOf "decimals" FixedPoint.defaultDecimals data
  oracleHub := Datum.addressOf "oracle_hub_contract" data

/-- The section as it is written; an empty slot is left out. -/
def toJson (p : PriceFeed) : Json :=
  .obj (("decimals", .int p.decimals) :: Json.ofOptional "oracle_hub_contract" p.oracleHub)

end PriceFeed

namespace Engine

/-- The section with these field values. -/
def ofData (data : List (String × Datum)) : Engine where
  decimals := Datum.integerOf "decimals" FixedPoint.defaultDecimals data
  initialMarginRatio := Datum.textOf "initial_margin_ratio" data
  maintenanceMarginRatio := Datum.textOf "maintenance_margin_ratio" data
  liquidationFee := Datum.textOf "liquidation_fee" data
  insuranceFund := Datum.addressOf "insurance_fund" data
  feePool := Datum.addressOf "fee_pool" data
  eligibleCollateral := Datum.addressOf "eligible_collateral" data

/-- The section as it is written; empty slots are left out. -/
def toJson (e : Engine) : Json :=
  .obj ([("decimals", .int e.decimals), ("initial_margin_ratio", .str e.initialMarginRatio),
    ("maintenance_margin_ratio", .str e.maintenanceMarginRatio),
    ("liquidation_fee", .str e.liquidationFee)] ++
    Json.ofOptional "insurance_fund" e.insuranceFund ++ Json.ofOptional "fee_pool" e.feePool ++
    Json.ofOptional "eligible_collateral" e.eligibleCollateral)

end Engine

namespace Vamm

/-- The section with these field values. -/
def ofData (data : List (String × Datum)) : Vamm where
  decimals := Datum.integerOf "decimals" FixedPoint.defaultDecimals data
  quoteAsset := Datum.textOf "quote_asset" data
  baseAsset := Datum.textOf "base_asset" data
  quoteReserve := Datum.textOf "quote_asset_reserve" data
  baseReserve := Datum.textOf "base_asset_reserve" data
  fundingPeriod := Datum.integerOf "funding_period" 0 data
  tollRatio := Datum.textOf "toll_ratio" data
  spreadRatio := Datum.textOf "spread_ratio" data
  fluctuationLimitRatio := Datum.textOf "fluctuation_limit_ratio" data
  pricefeed := Datum.addressOf "pricefeed" data

/-- The section as it is written; an empty slot is left out. -/
def toJson (v : Vamm) : Json :=
  .obj ([("decimals", .int v.decimals), ("quote_asset", .str v.quoteAsset),
    ("base_asset", .str v.baseAsset), ("quote_asset_reserve", .str v.quoteReserve),
    ("base_asset_reserve", .str v.baseReserve), ("funding_period", .int v.fundingPeriod),
    ("toll_ratio", .str v.tollRatio), ("spread_ratio", .str v.spreadRatio),
    ("fluctuation_limit_ratio", .str v.fluctuationLimitRatio)] ++
    Json.ofOptional "pricefeed" v.pricefeed)

end Vamm

namespace Asset

/-- The asset with these field values. -/
def ofData (data : List (String × Datum)) : Asset where
  symbol := Datum.textOf "symbol" data
  address := Datum.addressOf "address" data
  decimals := Datum.integerOf "decimals" FixedPoint.defaultDecimals data

/-- The asset as it is written; a missing address is left out. -/
def toJson (a : Asset) : Json :=
  .obj (("symbol", .str a.symbol) ::
    (Json.ofOptional "address" a.address ++ [("decimals", .int a.decimals)]))

def ofJson (raw : Json) : Except Failure Asset := do
  return ofData (← Section.initialAssets.read raw)

end Asset

namespace Record

/-- The sections that must be there. -/
def requiredSections : List Section := [.priceFeed, .engine, .vamm]

/-- Reads a written record.  Sections are looked at in the order price feed,
engine, market maker, insurance fund, assets. -/
def ofJson (raw : Json) : Except Failure Record := do
  let members ← within "config" none
    (Check.object raw (requiredSections.map Section.key) (some (Section.all.map Section.key))
      "config")
  let member (s : Section) (default : Json) : Json := (Json.member? s.key members).getD default
  match member .initialAssets (.arr []) with
  | .arr items =>
    let priceFeed ← Section.priceFeed.read (member .priceFeed .null)
    let engine ← Section.engine.read (member .engine .null)
    let vamm ← Section.vamm.read (member .vamm .null)
    let _ ← Section.insuranceFund.read (member .insuranceFund (.obj []))
    let assets ← items.mapM Asset.ofJson
    return {
      priceFeed := .ofData priceFeed
      engine := .ofData engine
      vamm := .ofData vamm
      assets }
  | other => reject Section.initialAssets.key none (.notList other.kind)

/-- A section of the record as it is written. -/
def sectionJson (r : Record) : Section → Json
  | .initialAssets => .arr (r.assets.map Asset.toJson)
  | .insuranceFund => .obj []
  | .priceFeed => r.priceFeed.toJson
  | .engine => r.engine.toJson
  | .vamm => r.vamm.toJson

/-- The record as it is written. -/
def toJson (r : Record) : Json :=
  .obj (Section.all.map fun s => (s.key, r.sectionJson s))

end Record

end PerpRollout
