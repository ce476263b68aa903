import PerpRollout.Check
import PerpRollout.Decimal.Reader

/-!
# Fixed-point numerals

Ratios, fees and reserves are numerals at an implied scale: with 6 decimals
`62500` means 0.0625.  Quotients are taken with 80 significant digits, enough
for the product of two 128-bit numbers.
-/

namespace PerpRollout.FixedPoint

/-- The number of decimals unless a record says otherwise. -/
def defaultDecimals : Int := 6

/-- The significant digits of a quotient. -/
def precision : Nat := 80

/-- The power of ten of the largest leading digit of an amount. -/
def maxLeading : Int := 999999

def scale (decimals : Int) : Except Failure Nat :=
  if decimals < 0 then refuse (.negativeDecimals decimals) else .ok (Nat.pow 10 decimals.toNat)

/-- What a numeral means at a scale. -/
def toDecimal (value : Json) (decimals : Int) (name : String) : Except Failure Decimal := do
  let raw ← Check.numeral value none name
  let scale ← scale decimals
  return .divide precision (.ofNat raw) (.ofNat scale)

/-- The quotient of two numerals at the same scale. -/
def ratio (numerator denominator : Json) : Except Failure Decimal := do
  let num ← Check.numeral numerator none "numerator"
  let den ← Check.numeral denominator none "denominator"
  if den = 0 then refuse .zeroDenominator
  else return .divide precision (.ofNat num) (.ofNat den)

/-- A quantity that can be encoded. -/
inductive Amount where
  | text (s : String)
  | int (n : Int)
  | bool (b : Bool)
  deriving DecidableEq, Repr

namespace Amount

/-- The amount as the value it was given as. -/
def toJson : Amount → Json
  | .text s => .str s
  | .int n => .int n
  | .bool b => .bool b

/-- The exact number an amount stands for, if it is a written decimal. -/
def read? : Amount → Option Decimal.Reading
  | .text s => Decimal.read? s
  | .int n => some (.finite (n < 0) (.ofNat n.natAbs))
  | .bool b => some (.finite false (.ofNat b.toNat))

end Amount

/-- The numeral of an amount at a scale.  The product of amount and scale is
rounded to 80 significant digits, and of that the integer part is taken. -/
def fromDecimal (amount : Amount) (decimals : Int) : Except Failure String :=
  match amount.read? with
  | none => .error .notADecimal
  | some .infinite => refuse (.notFinite amount.toJson)
  | some .notANumber => refuse (.notFinite amount.toJson)
  | some (.finite negative d) =>
    if negative && d.coefficient != 0 then refuse (.negativeAmount amount.toJson)
    else if decimals < 0 then refuse (.negativeDecimals decimals)
    else if d.coefficient = 0 then .ok "0"
    else
      let scaled := Decimal.round precision ⟨d.coefficient, d.exponent + decimals⟩
      if maxLeading < scaled.leading then .error .amountTooLarge
      else if precision ≤ scaled.leading then .error .amountTooWide
      else .ok (Numeral.ofNat scaled.floor)

end PerpRollout.FixedPoint
