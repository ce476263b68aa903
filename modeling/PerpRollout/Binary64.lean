import PerpRollout.Numeral.Basic
import PerpRollout.Rounding

/-!
# Binary floating-point numbers

The numbers of the 64-bit binary format, as exact multiples of powers of two.
`Binary64.ofDecimal` rounds a decimal to the nearest of them, and `text` writes
one with the fewest digits that read back as the same number.  Both work in
exact arithmetic of natural numbers.
-/

namespace PerpRollout

/-- A number of the 64-bit binary format.  A finite one is the mantissa times
two to the power of the exponent, with its sign. -/
inductive Binary64 where
  | nan
  | infinite (negative : Bool)
  | finite (negative : Bool) (mantissa : Nat) (exponent : Int)
  deriving DecidableEq, Repr

namespace Binary64

/-- The number nearest to `coefficient * 10 ^ exponent`, a tie to the even
mantissa.  From 2^1024 - 2^970 on that is an infinity. -/
def ofDecimal (negative : Bool) (coefficient : Nat) (exponent : Int) : Binary64 :=
  let magnitude := Numeral.length coefficient + exponent
  if coefficient = 0 || magnitude < -330 then .finite negative 0 0
  else if 310 < magnitude then .infinite negative
  else
    let num := coefficient * Nat.pow 10 exponent.toNat
    let den := Nat.pow 10 (-exponent).toNat
    let estimate : Int := (num.log2 : Int) - (den.log2 : Int) - 53
    let scaled (q : Int) : Nat × Nat := (num * Nat.pow 2 (-q).toNat, den * Nat.pow 2 q.toNat)
    let (n, d) := scaled estimate
    let q := max (-1074) (if d * Nat.pow 2 53 ≤ n then estimate + 1 else estimate)
    let (n, d) := scaled q
    let m := roundHalfEven n d
    let (m, q) := if m = Nat.pow 2 53 then (Nat.pow 2 52, q + 1) else (m, q)
    if 971 < q then .infinite negative else .finite negative m q

/-- The value and the two ends of the interval of numbers that round to
`m * 2 ^ q`, as numerators over one denominator. -/
structure Interval where
  value : Nat
  low : Nat
  high : Nat
  denominator : Nat
  /-- Whether the two ends belong to the interval. -/
  closed : Bool

/-- The interval of numbers that round to `m * 2 ^ q`.  The gap below a power
of two is half the gap above it. -/
def interval (m : Nat) (q : Int) : Interval :=
  let scale := Nat.pow 2 (q - 2).toNat
  let below := if m = Nat.pow 2 52 && -1074 < q then 1 else 2
  { value := 4 * m * scale
    low := (4 * m - below) * scale
    high := (4 * m + 2) * scale
    denominator := Nat.pow 2 (2 - q).toNat
    closed := m % 2 = 0 }

/-- `digits * 10 ^ exponent` lies in the interval. -/
def Interval.holds (i : Interval) (digits : Nat) (exponent : Int) : Bool :=
  let x := digits * Nat.pow 10 exponent.toNat * i.denominator
  let unit := Nat.pow 10 (-exponent).toNat
  if i.closed then i.low * unit ≤ x && x ≤ i.high * unit
  else i.low * unit < x && x < i.high * unit

/-- The point of the decimal grid with step `10 ^ exponent` that stands for the
interval, if one lies in it: the nearer of the two neighbours of the value, of
two equally near the even one. -/
def Interval.gridPoint? (i : Interval) (exponent : Int) : Option Nat :=
  let step := Nat.pow 10 exponent.toNat * i.denominator
  let x := i.value * Nat.pow 10 (-exponent).toNat
  let a := x / step
  let nearest := roundHalfEven x step
  if i.holds nearest exponent then some nearest
  else if i.holds a exponent then some a
  else if i.holds (a + 1) exponent then some (a + 1)
  else none

/-- The least exponent `k` with the value below `10 ^ k`. -/
def Interval.magnitude (i : Interval) : Int :=
  (Numeral.length (i.value * Nat.pow 10 400 / i.denominator) : Int) - 400

/-- The fewest digits that read back, with their exponent; 17 digits always do. -/
def shortest (m : Nat) (q : Int) : Nat × Int :=
  let i := interval m q
  let k := i.magnitude
  let grids := (List.range 17).map fun n => k - (n + 1 : Nat)
  (grids.findSome? fun e => (i.gridPoint? e).map (·, e)).getD
    (roundHalfEven (i.value * Nat.pow 10 (17 - k).toNat)
      (i.denominator * Nat.pow 10 (k - 17).toNat), k - 17)

/-- The digits without the zeros at their end. -/
def dropTrailingZeros (digits : List Char) : List Char :=
  (digits.reverse.dropWhile (· == '0')).reverse

/-- Digits with the decimal point after the first `point` of them: positional
from 0.0001 to below 10^16, with an exponent of at least two digits elsewhere. -/
def layOut (digits : List Char) (point : Int) : List Char :=
  let count : Int := digits.length
  if -4 < point && point ≤ 16 then
    if point ≤ 0 then '0' :: '.' :: (List.replicate (-point).toNat '0' ++ digits)
    else if count ≤ point then digits ++ List.replicate (point - count).toNat '0' ++ ['.', '0']
    else digits.take point.toNat ++ '.' :: digits.drop point.toNat
  else
    let power := point - 1
    let powerDigits := Nat.toDigits 10 power.natAbs
    let fraction := digits.drop 1
    digits.take 1 ++ (if fraction.isEmpty then [] else '.' :: fraction) ++
      'e' :: (if power < 0 then '-' else '+') ::
        (List.replicate (2 - powerDigits.length) '0' ++ powerDigits)

/-- What a number without a finite value is called. -/
structure Names where
  nan : String
  infinity : String

/-- The number in decimal, with the fewest digits that read back. -/
def text (names : Names) : Binary64 → String
  | .nan => names.nan
  | .infinite negative => (if negative then "-" else "") ++ names.infinity
  | .finite negative m q =>
    let body :=
      if m = 0 then ['0', '.', '0']
      else
        let (n, e) := shortest m q
        let digits := Nat.toDigits 10 n
        layOut (dropTrailingZeros digits) (digits.length + e)
    (if negative then "-" else "") ++ String.ofList body

end Binary64

end PerpRollout
