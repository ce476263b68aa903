import PerpRollout.Module

/-!
# Deployment steps

The contract instantiations of a deployment, in the order they must happen:

* the price feed needs the oracle hub;
* the insurance fund needs nothing;
* the engine needs the insurance fund and the fee pool;
* the virtual market maker needs the price feed.
-/

namespace PerpRollout

inductive Step where
  | pricefeed
  | insuranceFund
  | engine
  | vamm
  deriving DecidableEq, Repr

namespace Step

/-- All steps, in the order they must happen. -/
def order : List Step := [.pricefeed, .insuranceFund, .engine, .vamm]

def name : Step → String
  | .pricefeed => "pricefeed"
  | .insuranceFund => "insurance_fund"
  | .engine => "engine"
  | .vamm => "vamm"

/-- The modules whose addresses the step needs. -/
def requirements : Step → List Module
  | .pricefeed => [.oracleHub]
  | .insuranceFund => []
  | .engine => [.insuranceFund, .feePool]
  | .vamm => [.pricefeed]

/-- The module whose address the step yields. -/
def output? : Step → Option Module
  | .pricefeed => some .pricefeed
  | .insuranceFund => some .insuranceFund
  | .engine => none
  | .vamm => none

/-- The section that is the step's message. -/
def message : Step → Section
  | .pricefeed => .priceFeed
  | .insuranceFund => .insuranceFund
  | .engine => .engine
  | .vamm => .vamm

/-- The step that a text names, with blanks around it and in either case. -/
def ofSpelling? (s : String) : Option Step :=
  let key := Text.spelling s
  order.find? fun step => key = step.name

theorem mem_order (s : Step) : s ∈ order := by
  cases s <;> decide

end Step

end PerpRollout
