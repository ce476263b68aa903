/-!
# Sections of a deployment record

A deployment record is written as one object with five sections.
-/

namespace PerpRollout

/-- The sections of a deployment record, in the order they are written. -/
inductive Section where
  | initialAssets
  | insuranceFund
  | priceFeed
  | engine
  | vamm
  deriving DecidableEq, Repr

namespace Section

/-- All sections, in the order they are written. -/
def all : List Section := [.initialAssets, .insuranceFund, .priceFeed, .engine, .vamm]

def key : Section → String
  | .initialAssets => "initialAssets"
  | .insuranceFund => "insuranceFundInitMsg"
  | .priceFeed => "priceFeedInitMsg"
  | .engine => "engineInitMsg"
  | .vamm => "vammInitMsg"

/-- The name of the section as a record field. -/
def label : Section → String
  | .initialAssets => "initial_assets"
  | .insuranceFund => "insurance_fund_init_msg"
  | .priceFeed => "price_feed_init_msg"
  | .engine => "engine_init_msg"
  | .vamm => "vamm_init_msg"

/-- The dotted path of a field of the section. -/
def path (s : Section) (field : String) : String :=
  s.key ++ "." ++ field

end Section

end PerpRollout
