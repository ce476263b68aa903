import PerpRollout.Numeral.Basic
import PerpRollout.Text.Blank

/-!
# Integer literals

A more lenient way to write an integer than a numeral: blanks around it, a sign,
single underscores between digits, and digits of any script.
-/

namespace PerpRollout.Numeral

/-- What reading a literal finds. -/
inductive Literal where
  | integer (n : Int)
  /-- The literal has this many digits, more than the limit. -/
  | tooLong (digits : Nat)
  | malformed
  deriving DecidableEq, Repr

/-- A blank that may stand around a literal.  The information separators are
blank in a text, but not here. -/
def isLiteralBlank (c : Char) : Bool :=
  Text.isBlank c && !(0x1C ≤ c.toNat && c.toNat ≤ 0x1F)

/-- The digits at the front and what follows them.  An underscore has to stand
between two digits: `gap` says that a digit must come next, as it must at the
front and after an underscore. -/
def scanDigits (gap : Bool) : List Char → Option (List Nat × List Char)
  | [] => if gap then none else some ([], [])
  | c :: rest =>
    match Text.digitValue? c with
    | some d => (scanDigits false rest).map fun (ds, r) => (d :: ds, r)
    | none =>
      if gap then none
      else if c = '_' then scanDigits true rest
      else some ([], c :: rest)

/-- The literal without a sign at its front, and whether that was `-`. -/
def splitSign : List Char → Bool × List Char
  | '-' :: rest => (true, rest)
  | '+' :: rest => (false, rest)
  | cs => (false, cs)

/-- The integer a literal stands for.  The count of digits is looked at before
anything that may follow them. -/
def readLiteral (s : String) : Literal :=
  let (negative, body) := splitSign (s.toList.dropWhile isLiteralBlank)
  match scanDigits true body with
  | none => .malformed
  | some (digits, rest) =>
    if digitLimit < digits.length then .tooLong digits.length
    else if !rest.all isLiteralBlank then .malformed
    else
      let n : Nat := digits.foldl (fun a d => 10 * a + d) 0
      .integer (if negative then -(n : Int) else n)

end PerpRollout.Numeral
