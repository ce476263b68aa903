import PerpRollout.Section
import PerpRollout.Text.Names

/-!
# Contract modules and their address slots

Each module is a contract whose address other contracts are instantiated with.
A record has one slot for each: an address field of one of its sections, empty
until the contract is deployed.
-/

namespace PerpRollout

/-- The modules, in declaration order. -/
inductive Module where
  | oracleHub
  | insuranceFund
  | feePool
  | eligibleCollateral
  | pricefeed
  deriving DecidableEq, Repr

namespace Module

def all : List Module := [.oracleHub, .insuranceFund, .feePool, .eligibleCollateral, .pricefeed]

def name : Module → String
  | .oracleHub => "oracle_hub"
  | .insuranceFund => "insurance_fund"
  | .feePool => "fee_pool"
  | .eligibleCollateral => "eligible_collateral"
  | .pricefeed => "pricefeed"

/-- The section that holds the module's slot. -/
def home : Module → Section
  | .oracleHub => .priceFeed
  | .insuranceFund => .engine
  | .feePool => .engine
  | .eligibleCollateral => .engine
  | .pricefeed => .vamm

/-- The field of that section which is the module's slot. -/
def field : Module → String
  | .oracleHub => "oracle_hub_contract"
  | m => m.name

/-- The dotted path of the module's slot. -/
def path (m : Module) : String :=
  m.home.path m.field

/-- The module that a text names, by its own name or by its field, with blanks
around it and in either case. -/
def ofSpelling? (s : String) : Option Module :=
  let key := Text.spelling s
  all.find? fun m => key = m.name || key = m.field

def ofName? (name : String) : Option Module :=
  all.find? fun m => m.name = name

theorem ofName?_name (m : Module) : ofName? m.name = some m := by
  cases m <;> decide

theorem mem_all (m : Module) : m ∈ all := by
  cases m <;> decide

end Module

end PerpRollout
