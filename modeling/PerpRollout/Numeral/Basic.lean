import PerpRollout.Text.Digit

/-!
# Decimal numerals

Numbers are written in base ten without leading zeros, and read back digit by
digit.  Numerals of more than 4300 digits are neither written nor read, so that
no input can make a conversion arbitrarily slow; leading zeros count when
reading.
-/

namespace PerpRollout.Numeral

def ofNat (n : Nat) : String :=
  String.ofList (Nat.toDigits 10 n)

/-- The numeral of an integer, with `-` in front when it is negative. -/
def ofInt : Int → String
  | .ofNat n => ofNat n
  | .negSucc n => "-" ++ ofNat (n + 1)

/-- The number of decimal digits of `n`, which is one for zero. -/
def length (n : Nat) : Nat :=
  (Nat.toDigits 10 n).length

/-- The number of digits a numeral may have. -/
def digitLimit : Nat := 4300

/-- The numeral of the integer stays within the limit; the sign does not count. -/
def isWritable (n : Int) : Bool :=
  length n.natAbs ≤ digitLimit

/-- The value of a sequence of the digits `0` to `9`. -/
def value (digits : List Char) : Nat :=
  Nat.ofDigitChars 10 digits 0

/-- A numeral: at least one digit, and only the digits `0` to `9`. -/
def isNumeral (cs : List Char) : Bool :=
  !cs.isEmpty && cs.all Text.isAsciiDigit

/-- Reading takes a numeral back to the number it was written for. -/
theorem value_toDigits (n : Nat) : value (Nat.toDigits 10 n) = n :=
  Nat.ofDigitChars_toDigits (by decide) (by decide)

end PerpRollout.Numeral
