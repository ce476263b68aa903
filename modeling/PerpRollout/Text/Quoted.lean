import PerpRollout.Text.Digit
import PerpRollout.Text.Printable

/-!
# Quoted text

How a text is shown inside a message: between quotation marks, with escapes for
the backslash, for the quotation mark itself and for every character that
cannot be printed.  Single marks are used, unless the text holds a single mark
and no double one.
-/

namespace PerpRollout.Text

/-- The mark a text is quoted with. -/
def quoteMark (cs : List Char) : Char :=
  if cs.contains '\'' && !cs.contains '"' then '"' else '\''

/-- One character as it stands between two marks. -/
def escapeChar (mark c : Char) : List Char :=
  if c = mark || c = '\\' then ['\\', c]
  else if c = '\n' then ['\\', 'n']
  else if c = '\r' then ['\\', 'r']
  else if c = '\t' then ['\\', 't']
  else if isPrintable c then [c]
  else if c.toNat ≤ 0xFF then '\\' :: 'x' :: hexDigits 2 c.toNat
  else if c.toNat ≤ 0xFFFF then '\\' :: 'u' :: hexDigits 4 c.toNat
  else '\\' :: 'U' :: hexDigits 8 c.toNat

/-- The text between quotation marks. -/
def quoted (s : String) : String :=
  let cs := s.toList
  let mark := quoteMark cs
  String.ofList (mark :: cs.flatMap (escapeChar mark) ++ [mark])

/-- A list of texts as a message shows it: `['a', "b'"]`. -/
def quotedList (names : List String) : String :=
  "[" ++ ", ".intercalate (names.map quoted) ++ "]"

end PerpRollout.Text
