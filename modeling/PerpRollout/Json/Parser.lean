import PerpRollout.Json.Basic
import PerpRollout.Text.Digit

/-!
# Reading JSON

A reader for JSON texts that says where a text stops being JSON.  Besides the
standard it accepts `NaN`, `Infinity` and `-Infinity`; of a repeated key the
last value counts; integers are exact, of at most `limit` digits.  An escape for
half of a surrogate pair without its other half reads as U+FFFD.

While reading, a position is the rest of the text from there on.  The functions
that read a value count down a number of steps; `Json.parse` starts with two for
each character of the text, which is more than any text can use up.
-/

namespace PerpRollout.Json

/-- What is wrong with a text that is not JSON. -/
inductive Flaw where
  | byteOrderMark
  | noValue
  | noKey
  | noColon
  | noComma
  | extraData
  | openString
  | controlCharacter
  | badEscape
  | badUnicodeEscape
  deriving DecidableEq, Repr

/-- Why reading stopped, with the rest of the text at the place in question. -/
inductive Stop where
  | flaw (flaw : Flaw) (rest : List Char)
  /-- An integer of this many digits. -/
  | numeralTooLong (digits : Nat)
  deriving DecidableEq, Repr

/-- The blanks between the parts of a JSON text. -/
def isGap (c : Char) : Bool :=
  c = ' ' || c = '\t' || c = '\n' || c = '\r'

def skipGap (cs : List Char) : List Char :=
  cs.dropWhile isGap

/-- The value of four hexadecimal digits. -/
def hexUnit? (a b c d : Char) : Option Nat := do
  let a ← Text.hexValue? a
  let b ← Text.hexValue? b
  let c ← Text.hexValue? c
  let d ← Text.hexValue? d
  return ((a * 16 + b) * 16 + c) * 16 + d

/-- What a text is spelled with between its quotation marks: characters, and
UTF-16 units given by their number. -/
inductive Spelled where
  | char (c : Char)
  | unit (n : Nat)
  deriving DecidableEq, Repr

/-- The character of a UTF-16 unit that stands alone; half a pair becomes U+FFFD. -/
def charOfUnit (n : Nat) : Char :=
  if 0xD800 ≤ n && n ≤ 0xDFFF then '\uFFFD' else Char.ofNat n

/-- The character that two halves of a surrogate pair stand for. -/
def charOfPair? (high low : Nat) : Option Char :=
  if 0xD800 ≤ high && high ≤ 0xDBFF && 0xDC00 ≤ low && low ≤ 0xDFFF then
    some (Char.ofNat (0x10000 + (high - 0xD800) * 0x400 + (low - 0xDC00)))
  else none

/-- The characters that are spelled: two units that form a surrogate pair are
one character.  `pending` is a unit whose other half may follow. -/
def joinUnits (pending : Option Nat) : List Spelled → List Char
  | [] => (pending.map charOfUnit).toList
  | .char c :: rest => (pending.map charOfUnit).toList ++ c :: joinUnits none rest
  | .unit n :: rest =>
    match pending with
    | none => joinUnits (some n) rest
    | some high =>
      match charOfPair? high n with
      | some c => c :: joinUnits none rest
      | none => charOfUnit high :: joinUnits (some n) rest

/-- The character that a one-letter escape stands for. -/
def simpleEscape? : Char → Option Char
  | '"' => some '"'
  | '\\' => some '\\'
  | '/' => some '/'
  | 'b' => some '\x08'
  | 'f' => some '\x0C'
  | 'n' => some '\n'
  | 'r' => some '\r'
  | 't' => some '\t'
  | _ => none

/-- Puts a character in front of a spelling that was read. -/
def consSpelled (c : Spelled) :
    Except Stop (List Spelled × List Char) → Except Stop (List Spelled × List Char)
  | .ok (cs, rest) => .ok (c :: cs, rest)
  | .error e => .error e

/-- The spelling up to the closing quotation mark, and the rest after it.
`opening` is the rest of the text at the opening mark.  A `\u` escape counts
only when the text goes on after its four digits. -/
def parseString (opening : List Char) : List Char → Except Stop (List Spelled × List Char)
  | [] => .error (.flaw .openString opening)
  | c :: rest =>
    if c = '"' then .ok ([], rest)
    else if c = '\\' then
      match rest with
      | [] => .error (.flaw .openString opening)
      | 'u' :: digits =>
        match digits with
        | h1 :: h2 :: h3 :: h4 :: after =>
          match hexUnit? h1 h2 h3 h4 with
          | some n =>
            if after.isEmpty then .error (.flaw .badUnicodeEscape rest)
            else consSpelled (.unit n) (parseString opening after)
          | none => .error (.flaw .badUnicodeEscape rest)
        | _ => .error (.flaw .badUnicodeEscape rest)
      | e :: after =>
        match simpleEscape? e with
        | some ch => consSpelled (.char ch) (parseString opening after)
        | none => .error (.flaw .badEscape (c :: rest))
    else if c.toNat ≤ 0x1F then .error (.flaw .controlCharacter (c :: rest))
    else consSpelled (.char c) (parseString opening rest)

/-- A text whose opening quotation mark was just read, and the rest after it. -/
def parseText (rest : List Char) : Except Stop (String × List Char) :=
  match parseString ('"' :: rest) rest with
  | .ok (cs, rest) => .ok (String.ofList (joinUnits none cs), rest)
  | .error e => .error e

/-- The digits `0` to `9` at the front, and the rest. -/
def spanDigits (cs : List Char) : List Char × List Char :=
  cs.span Text.isAsciiDigit

/-- The integer part of a number: `0`, or digits that do not start with it. -/
def integerPart? : List Char → Option (List Char × List Char)
  | '0' :: rest => some (['0'], rest)
  | cs =>
    match spanDigits cs with
    | ([], _) => none
    | found => some found

/-- The digits after a decimal point; none when no digit follows the point. -/
def fractionPart : List Char → List Char × List Char
  | '.' :: rest =>
    match spanDigits rest with
    | ([], _) => ([], '.' :: rest)
    | found => found
  | cs => ([], cs)

/-- The exponent, when digits follow its mark and sign. -/
def exponentPart : List Char → Option Int × List Char
  | cs@(e :: rest) =>
    if e = 'e' || e = 'E' then
      let (negative, digits) : Bool × List Char :=
        match rest with
        | '-' :: r => (true, r)
        | '+' :: r => (false, r)
        | r => (false, r)
      match spanDigits digits with
      | ([], _) => (none, cs)
      | (ds, r) =>
        let n : Int := Numeral.value ds
        (some (if negative then -n else n), r)
    else (none, cs)
  | [] => (none, [])

/-- A number.  `start` is the rest of the text at its front. -/
def parseNumber (limit : Nat) (start : List Char) : Except Stop (Json × List Char) :=
  let (negative, cs) : Bool × List Char :=
    match start with
    | '-' :: rest => (true, rest)
    | cs => (false, cs)
  match integerPart? cs with
  | none => .error (.flaw .noValue start)
  | some (digits, rest) =>
    let (fraction, rest) := fractionPart rest
    let (power, rest) := exponentPart rest
    if fraction.isEmpty && power.isNone then
      if limit < digits.length then .error (.numeralTooLong digits.length)
      else
        let n : Int := Numeral.value digits
        .ok (.int (if negative then -n else n), rest)
    else
      .ok (.float (.ofDecimal negative (Numeral.value (digits ++ fraction))
        (power.getD 0 - fraction.length)), rest)

def parseAtom (limit : Nat) : List Char → Except Stop (Json × List Char)
  | 'n' :: 'u' :: 'l' :: 'l' :: rest => .ok (.null, rest)
  | 't' :: 'r' :: 'u' :: 'e' :: rest => .ok (.bool true, rest)
  | 'f' :: 'a' :: 'l' :: 's' :: 'e' :: rest => .ok (.bool false, rest)
  | 'N' :: 'a' :: 'N' :: rest => .ok (.float .nan, rest)
  | 'I' :: 'n' :: 'f' :: 'i' :: 'n' :: 'i' :: 't' :: 'y' :: rest =>
    .ok (.float (.infinite false), rest)
  | '-' :: 'I' :: 'n' :: 'f' :: 'i' :: 'n' :: 'i' :: 't' :: 'y' :: rest =>
    .ok (.float (.infinite true), rest)
  | cs => parseNumber limit cs

/-- A key with the colon and the blanks after it. -/
def parseKey : List Char → Except Stop (String × List Char)
  | '"' :: cs => do
    let (key, rest) ← parseText cs
    match skipGap rest with
    | ':' :: rest => return (key, skipGap rest)
    | rest => throw (.flaw .noColon rest)
  | cs => .error (.flaw .noKey cs)

mutual
/-- One value, and the rest of the text after it. -/
def parseValue (limit : Nat) : (steps : Nat) → List Char → Except Stop (Json × List Char)
  | 0, cs => .error (.flaw .noValue cs)
  | steps + 1, cs =>
    match cs with
    | '"' :: rest => do
      let (s, rest) ← parseText rest
      return (.str s, rest)
    | '\x7b' :: rest =>
      match skipGap rest with
      | '\x7d' :: rest => .ok (.obj [], rest)
      | rest => do
        let (members, rest) ← parseMembers limit steps rest
        return (ofMembers members, rest)
    | '[' :: rest =>
      match skipGap rest with
      | ']' :: rest => .ok (.arr [], rest)
      | rest => do
        let (items, rest) ← parseItems limit steps rest
        return (.arr items, rest)
    | cs => parseAtom limit cs
/-- One or more items up to the closing bracket. -/
def parseItems (limit : Nat) : (steps : Nat) → List Char → Except Stop (List Json × List Char)
  | 0, cs => .error (.flaw .noValue cs)
  | steps + 1, cs => do
    let (v, rest) ← parseValue limit steps cs
    match skipGap rest with
    | ']' :: rest => return ([v], rest)
    | ',' :: rest =>
      let (items, rest) ← parseItems limit steps (skipGap rest)
      return (v :: items, rest)
    | rest => throw (.flaw .noComma rest)
/-- One or more members up to the closing brace. -/
def parseMembers (limit : Nat) :
    (steps : Nat) → List Char → Except Stop (List (String × Json) × List Char)
  | 0, cs => .error (.flaw .noValue cs)
  | steps + 1, cs => do
    let (key, rest) ← parseKey cs
    let (v, rest) ← parseValue limit steps rest
    match skipGap rest with
    | '\x7d' :: rest => return ([(key, v)], rest)
    | ',' :: rest =>
      let (members, rest) ← parseMembers limit steps (skipGap rest)
      return ((key, v) :: members, rest)
    | rest => throw (.flaw .noComma rest)
end

def parse (limit : Nat) (cs : List Char) : Except Stop Json :=
  match cs with
  | '\uFEFF' :: _ => .error (.flaw .byteOrderMark cs)
  | _ => do
    let (v, rest) ← parseValue limit (2 * cs.length + 2) (skipGap cs)
    match skipGap rest with
    | [] => return v
    | rest => throw (.flaw .extraData rest)

/-- A place in a text: the number of characters before it, and its line and
column, both counted from one. -/
structure Place where
  offset : Nat
  line : Nat
  column : Nat
  deriving DecidableEq, Repr

/-- The place where `rest` of the text begins. -/
def placeOf (text rest : List Char) : Place :=
  let before := text.take (text.length - rest.length)
  { offset := before.length
    line := before.count '\n' + 1
    column := (before.reverse.takeWhile (· != '\n')).length + 1 }

def Flaw.message : Flaw → String
  | .byteOrderMark => "Unexpected UTF-8 BOM (decode using utf-8-sig)"
  | .noValue => "Expecting value"
  | .noKey => "Expecting property name enclosed in double quotes"
  | .noColon => "Expecting ':' delimiter"
  | .noComma => "Expecting ',' delimiter"
  | .extraData => "Extra data"
  | .openString => "Unterminated string starting at"
  | .controlCharacter => "Invalid control character at"
  | .badEscape => "Invalid \\escape"
  | .badUnicodeEscape => "Invalid \\uXXXX escape"

/-- A flaw with its place, as a message gives it. -/
def Flaw.report (flaw : Flaw) (place : Place) : String :=
  flaw.message ++ ": line " ++ Numeral.ofNat place.line ++ " column " ++
    Numeral.ofNat place.column ++ " (char " ++ Numeral.ofNat place.offset ++ ")"

end PerpRollout.Json
