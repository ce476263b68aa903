import PerpRollout.Decimal.Basic
import PerpRollout.Text.Blank

/-!
# Reading decimals

The written form of a decimal: a sign, digits with at most one decimal point
among them, and an exponent.  Blanks around it and underscores anywhere do not
count, and the digits may be of any script.  Infinities and not-a-numbers have
written forms too.
-/

namespace PerpRollout.Decimal

/-- What a written decimal stands for. -/
inductive Reading where
  | finite (negative : Bool) (d : Decimal)
  | infinite
  | notANumber
  deriving DecidableEq, Repr

/-- The largest power of ten of a leading digit. -/
def maxLeading : Int := 999999999999999999

def minExponent : Int := -1999999999999999997

/-- A digit of any script as one of `0` to `9`; any other character stays. -/
def plainDigit (c : Char) : Char :=
  match Text.digitValue? c with
  | some d => Nat.digitChar d
  | none => c

/-- The characters that count: no blanks around them, no underscores. -/
def significant (s : String) : List Char :=
  ((Text.trim s.toList).filter (· != '_')).map plainDigit

def lowerLetter (c : Char) : Char :=
  if 'A' ≤ c && c ≤ 'Z' then Char.ofNat (c.toNat + 32) else c

/-- The exponent after its mark: a sign and at least one digit. -/
def readExponent? : List Char → Option Int
  | '-' :: ds => if Numeral.isNumeral ds then some (-(Numeral.value ds : Int)) else none
  | '+' :: ds => if Numeral.isNumeral ds then some (Numeral.value ds) else none
  | ds => if Numeral.isNumeral ds then some (Numeral.value ds) else none

/-- A number without its sign. -/
def readNumber? (cs : List Char) : Option Decimal := do
  let (mantissa, power) := cs.span fun c => c != 'e' && c != 'E'
  let exponent ← match power with
    | [] => some 0
    | _ :: ds => readExponent? ds
  let (whole, fraction) := mantissa.span (· != '.')
  let fraction := fraction.drop 1
  if Numeral.isNumeral (whole ++ fraction) then
    some ⟨Numeral.value (whole ++ fraction), exponent - fraction.length⟩
  else none

/-- The number is within the bounds of a decimal: a zero has no leading digit,
and its exponent is bounded in its place. -/
def inBounds (d : Decimal) : Bool :=
  minExponent ≤ d.exponent &&
    (if d.coefficient = 0 then d.exponent else d.leading) ≤ maxLeading

/-- What a written form without its sign stands for. -/
def readUnsigned? (negative : Bool) (cs : List Char) : Option Reading :=
  match cs.map lowerLetter with
  | 'i' :: 'n' :: 'f' :: rest =>
    if rest.isEmpty || rest = "inity".toList then some .infinite else none
  | 'n' :: 'a' :: 'n' :: rest => if rest.all Text.isAsciiDigit then some .notANumber else none
  | 's' :: 'n' :: 'a' :: 'n' :: rest =>
    if rest.all Text.isAsciiDigit then some .notANumber else none
  | _ =>
    match readNumber? cs with
    | some d => if inBounds d then some (.finite negative d) else none
    | none => none

/-- What a text stands for, if it is a written decimal. -/
def read? (s : String) : Option Reading :=
  match significant s with
  | '-' :: cs => readUnsigned? true cs
  | '+' :: cs => readUnsigned? false cs
  | cs => readUnsigned? false cs

end PerpRollout.Decimal
