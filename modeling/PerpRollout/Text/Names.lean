import PerpRollout.Text.Blank

/-!
# Lists of names and the spelling of a name

Names are listed by code point.  A name may be spelled with blanks around it
and in either case: `spelling` is what remains of such a spelling, and two
spellings mean the same name when these agree.
-/

namespace PerpRollout.Text

/-- The names by code point; a repeated name stays repeated. -/
def sortNames (names : List String) : List String :=
  names.mergeSort fun a b => decide (a ≤ b)

/-- The distinct names by code point. -/
def distinctNames (names : List String) : List String :=
  sortNames names.eraseDups

/-- The lower case of a character as far as it is an ASCII letter.  Besides
`A` to `Z` this is the Kelvin sign, whose lower case is `k`; every other
character stays, since its lower case has no ASCII letter alone. -/
def lowerAscii (c : Char) : Char :=
  if 'A' ≤ c && c ≤ 'Z' then Char.ofNat (c.toNat + 32)
  else if c.toNat = 0x212A then 'k'
  else c

/-- What a spelling says, without the blanks around it and in lower case. -/
def spelling (s : String) : String :=
  String.ofList ((trim s.toList).map lowerAscii)

end PerpRollout.Text
