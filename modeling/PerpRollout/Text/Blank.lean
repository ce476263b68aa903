/-!
# Blank characters

The characters that count as blank space in names, addresses and written
numbers: the Unicode property `White_Space` together with the four information
separators U+001C to U+001F.  Zero-width characters (U+200B, U+FEFF) and
U+180E are not blank.
-/

namespace PerpRollout.Text

/-- The blank characters, by code point. -/
def isBlank (c : Char) : Bool :=
  let n := c.toNat
  (0x9 ≤ n && n ≤ 0xD) || (0x1C ≤ n && n ≤ 0x20) || n == 0x85 || n == 0xA0 || n == 0x1680 ||
    (0x2000 ≤ n && n ≤ 0x200A) || n == 0x2028 || n == 0x2029 || n == 0x202F || n == 0x205F ||
    n == 0x3000

/-- A text without any visible character: empty, or blanks only. -/
def blank (s : String) : Bool :=
  s.toList.all isBlank

/-- A text with a blank somewhere in it. -/
def hasBlank (s : String) : Bool :=
  s.toList.any isBlank

/-- The text without what `p` holds of at its two ends. -/
def trimBy (p : Char → Bool) (cs : List Char) : List Char :=
  ((cs.dropWhile p).reverse.dropWhile p).reverse

/-- The text without the blanks at its two ends. -/
def trim (cs : List Char) : List Char :=
  trimBy isBlank cs

theorem trim_nil : trim [] = [] := rfl

/-- A text without blanks has none at its ends. -/
theorem trim_eq_self {cs : List Char} (h : ∀ c ∈ cs, isBlank c = false) : trim cs = cs := by
  have hdrop {ds : List Char} (hds : ∀ d ∈ ds, isBlank d = false) : ds.dropWhile isBlank = ds := by
    cases ds with
    | nil => rfl
    | cons d ds => simp [hds d List.mem_cons_self]
  have hreverse : ∀ c ∈ cs.reverse, isBlank c = false := fun c hc => h c (List.mem_reverse.mp hc)
  rw [trim, trimBy, hdrop h, hdrop hreverse, List.reverse_reverse]

theorem blank_empty : blank "" = true := by
  simp [blank]

end PerpRollout.Text
