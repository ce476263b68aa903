import PerpRollout.Numeral.Basic
import PerpRollout.Rounding

/-!
# Decimals

A decimal is a coefficient times a power of ten.  Two operations bound the
number of digits: `round` keeps the leading digits of a decimal, `divide` gives
the leading digits of a quotient.  Both go to the nearest decimal, a tie to the
even last digit.  `plain` writes a decimal without an exponent.
-/

namespace PerpRollout

/-- The number `coefficient * 10 ^ exponent`. -/
structure Decimal where
  coefficient : Nat
  exponent : Int
  deriving DecidableEq, Repr

namespace Decimal

def ofNat (n : Nat) : Decimal := ⟨n, 0⟩

/-- The power of ten of the leading digit. -/
def leading (d : Decimal) : Int :=
  Numeral.length d.coefficient + d.exponent - 1

/-- A coefficient of `precision + 1` digits after a carry has one digit too many;
its last digit is a zero. -/
def carry (precision : Nat) (d : Decimal) : Decimal :=
  if d.coefficient = Nat.pow 10 precision then ⟨Nat.pow 10 (precision - 1), d.exponent + 1⟩ else d

/-- The nearest decimal of at most `precision` digits. -/
def round (precision : Nat) (d : Decimal) : Decimal :=
  let extra := Numeral.length d.coefficient - precision
  if extra = 0 then d
  else carry precision ⟨roundHalfEven d.coefficient (Nat.pow 10 extra), d.exponent + extra⟩

/-- Takes up to `most` zeros off the end of the coefficient. -/
def stripZeros : (most : Nat) → Decimal → Decimal
  | 0, d => d
  | most + 1, d =>
    if d.coefficient % 10 = 0 then stripZeros most ⟨d.coefficient / 10, d.exponent + 1⟩ else d

/-- The quotient of two positive numbers with `precision` leading digits.
An exact quotient loses the zeros at its end as long as its exponent is below
that of the two exponents' difference; a rounded one keeps all its digits. -/
def divide (precision : Nat) (a b : Decimal) : Decimal :=
  let ideal := a.exponent - b.exponent
  if a.coefficient = 0 then ⟨0, ideal⟩
  else
    let most : Int := precision + Numeral.length b.coefficient - Numeral.length a.coefficient
    let scaled (shift : Int) : Nat × Nat :=
      (a.coefficient * Nat.pow 10 shift.toNat, b.coefficient * Nat.pow 10 (-shift).toNat)
    let (n, m) := scaled most
    let shift := if m * Nat.pow 10 precision ≤ n then most - 1 else most
    let (n, m) := scaled shift
    if n % m = 0 then stripZeros shift.toNat ⟨n / m, ideal - shift⟩
    else carry precision ⟨roundHalfEven n m, ideal - shift⟩

def floor (d : Decimal) : Nat :=
  if d.leading < 0 then 0
  else d.coefficient * Nat.pow 10 d.exponent.toNat / Nat.pow 10 (-d.exponent).toNat

/-- The decimal written without an exponent. -/
def plain (d : Decimal) : String :=
  let digits := Nat.toDigits 10 d.coefficient
  if 0 ≤ d.exponent then
    if d.coefficient = 0 then "0"
    else String.ofList (digits ++ List.replicate d.exponent.toNat '0')
  else
    let places := (-d.exponent).toNat
    let digits := List.replicate (places + 1 - digits.length) '0' ++ digits
    let whole := digits.length - places
    String.ofList (digits.take whole ++ '.' :: digits.drop whole)

end Decimal

end PerpRollout
