import PerpRollout.Json.Basic
import PerpRollout.Text.Digit

/-!
# Writing JSON

A value is first broken into pieces, fixed text and integers, and the pieces are
then written out one after the other.  Writing stops at the first integer that
is too long to be written; what was written before it stays written.
-/

namespace PerpRollout.Json

/-- The blanks of a layout: after a comma, and in front of each item or closing
bracket at a given depth. -/
structure Layout where
  afterComma : List Char
  margin : Nat → List Char

/-- All on one line. -/
def Layout.line : Layout where
  afterComma := [' ']
  margin _ := []

/-- One item a line, indented by two blanks for each level. -/
def Layout.indented : Layout where
  afterComma := []
  margin depth := '\n' :: List.replicate (2 * depth) ' '

/-- A UTF-16 code unit as an escape. -/
def escapeUnit (n : Nat) : List Char :=
  '\\' :: 'u' :: Text.hexDigits 4 n

/-- One character between the quotation marks of a JSON text.  All but the
printable ASCII characters are escaped; a character above U+FFFF takes two
escapes, one for each half of its surrogate pair. -/
def escape (c : Char) : List Char :=
  let n := c.toNat
  if c = '"' then ['\\', '"']
  else if c = '\\' then ['\\', '\\']
  else if c = '\n' then ['\\', 'n']
  else if c = '\r' then ['\\', 'r']
  else if c = '\t' then ['\\', 't']
  else if n = 0x8 then ['\\', 'b']
  else if n = 0xC then ['\\', 'f']
  else if 0x20 ≤ n && n ≤ 0x7E then [c]
  else if n ≤ 0xFFFF then escapeUnit n
  else escapeUnit (0xD800 + (n - 0x10000) / 0x400) ++ escapeUnit (0xDC00 + (n - 0x10000) % 0x400)

def stringText (s : String) : List Char :=
  '"' :: s.toList.flatMap escape ++ ['"']

/-- The names of the numbers without a finite value, in a JSON text. -/
def numberNames : Binary64.Names := ⟨"NaN", "Infinity"⟩

inductive Piece where
  | text (cs : List Char)
  | integer (n : Int)
  deriving DecidableEq, Repr

namespace Piece

def chars : Piece → List Char
  | .text cs => cs
  | .integer n => (Numeral.ofInt n).toList

/-- The piece is no integer that is too long to be written. -/
def isWritable : Piece → Bool
  | .text _ => true
  | .integer n => Numeral.isWritable n

end Piece

mutual
/-- The pieces of a value that stands at a depth. -/
def pieces (l : Layout) (depth : Nat) : Json → List Piece
  | .null => [.text "null".toList]
  | .bool b => [.text (if b then "true" else "false").toList]
  | .int n => [.integer n]
  | .float x => [.text (x.text numberNames).toList]
  | .str s => [.text (stringText s)]
  | .arr [] => [.text ['[', ']']]
  | .arr (v :: rest) =>
    .text ('[' :: l.margin (depth + 1)) :: pieces l (depth + 1) v ++
      itemPieces l (depth + 1) rest ++ [.text (l.margin depth ++ [']'])]
  | .obj [] => [.text ['\x7b', '\x7d']]
  | .obj ((k, v) :: rest) =>
    .text ('\x7b' :: l.margin (depth + 1) ++ stringText k ++ [':', ' ']) ::
      pieces l (depth + 1) v ++ memberPieces l (depth + 1) rest ++
        [.text (l.margin depth ++ ['\x7d'])]
/-- The pieces of the items after the first, each after a comma. -/
def itemPieces (l : Layout) (depth : Nat) : List Json → List Piece
  | [] => []
  | v :: rest =>
    .text (',' :: l.afterComma ++ l.margin depth) :: pieces l depth v ++ itemPieces l depth rest
/-- The pieces of the members after the first, each after a comma. -/
def memberPieces (l : Layout) (depth : Nat) : List (String × Json) → List Piece
  | [] => []
  | (k, v) :: rest =>
    .text (',' :: l.afterComma ++ l.margin depth ++ stringText k ++ [':', ' ']) ::
      pieces l depth v ++ memberPieces l depth rest
end

/-- What writing the pieces gives: the text, and whether all of it was written. -/
def write (ps : List Piece) : List Char × Bool :=
  ((ps.takeWhile Piece.isWritable).flatMap Piece.chars, ps.all Piece.isWritable)

/-- The text of a value, as far as it can be written. -/
def render (l : Layout) (v : Json) : String × Bool :=
  let (t, done) := write (pieces l 0 v)
  (String.ofList t, done)

/-- The text of a value with all its integers, however long. -/
def renderAll (l : Layout) (v : Json) : String :=
  String.ofList ((pieces l 0 v).flatMap Piece.chars)

mutual
/-- The value with the members of every object by the code points of their keys. -/
def sortKeys : Json → Json
  | .arr items => .arr (sortKeysItems items)
  | .obj members =>
    .obj ((sortKeysMembers members).mergeSort fun a b => decide (a.1 ≤ b.1))
  | v => v
/-- `sortKeys` of each item. -/
def sortKeysItems : List Json → List Json
  | [] => []
  | v :: rest => sortKeys v :: sortKeysItems rest
/-- `sortKeys` of the value of each member. -/
def sortKeysMembers : List (String × Json) → List (String × Json)
  | [] => []
  | (k, v) :: rest => (k, sortKeys v) :: sortKeysMembers rest
end

end PerpRollout.Json
