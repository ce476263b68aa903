import PerpRollout.Numeral.Literal
import PerpRollout.Record.Basic

/-!
# Values derived from a record

What the parameters of the market maker and the engine imply: the traded pair,
the invariant and the opening price of the curve, and the largest leverage.
-/

namespace PerpRollout

namespace Vamm

/-- The name of the traded pair, base before quote. -/
def pair (v : Vamm) : String :=
  v.baseAsset ++ "/" ++ v.quoteAsset

/-- The integer a reserve stands for, written as a literal. -/
def reserve (text : String) : Except Failure Int :=
  match Numeral.readLiteral text with
  | .integer n => .ok n
  | .tooLong digits => .error (.numeralTooLong digits)
  | .malformed => .error (.notALiteral text)

/-- The constant product of the seed reserves. -/
def initialK (v : Vamm) : Except Failure Int := do
  let quote ← reserve v.quoteReserve
  let base ← reserve v.baseReserve
  return quote * base

/-- The opening price of one base unit, in quote units. -/
def initialSpotPrice (v : Vamm) : Except Failure Decimal :=
  FixedPoint.ratio (.str v.quoteReserve) (.str v.baseReserve)

end Vamm

namespace Engine

/-- The significant digits of a leverage. -/
def leveragePrecision : Nat := 28

/-- The leverage that the initial margin ratio allows. -/
def maxLeverage (e : Engine) : Except Failure Decimal := do
  let margin ← FixedPoint.toDecimal (.str e.initialMarginRatio) e.decimals "initial_margin_ratio"
  if margin.coefficient = 0 then refuse .zeroMargin
  else return .divide leveragePrecision (.ofNat 1) margin

end Engine

end PerpRollout
