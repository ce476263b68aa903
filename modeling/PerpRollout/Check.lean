import PerpRollout.Failure

/-!
# Checks of single values

Each check takes a value of any kind and gives what it stands for, or fails with
the fault.  `name` is what messages call the value.
-/

namespace PerpRollout.Check

/-- An integer between two bounds, as far as they are given. -/
def integer (value : Json) (low high : Option Int) (name : String) : Except Failure Int :=
  match value with
  | .int n =>
    match low.filter (n < ·) with
    | some bound => refuse (.below name bound n)
    | none =>
      match high.filter (· < n) with
      | some bound => refuse (.above name bound n)
      | none => .ok n
  | _ => refuse (.notInteger name value.kind)

/-- A numeral: the digits `0` to `9`, with no sign, point or blank.  The number
it stands for is at most the bound, if one is given. -/
def numeral (value : Json) (high : Option Int) (name : String) : Except Failure Nat :=
  match value with
  | .str s =>
    let digits := s.toList
    if !Numeral.isNumeral digits then refuse (.notNumeral name s)
    else if Numeral.digitLimit < digits.length then .error (.numeralTooLong digits.length)
    else
      let n := Numeral.value digits
      match high.filter (· < (n : Int)) with
      | some bound => refuse (.numeralAbove name bound s)
      | none => .ok n
  | _ => refuse (.notNumeralText name value.kind)

/-- A text; not a blank one unless `allowEmpty`, and one of those allowed if any
are listed. -/
def text (value : Json) (allowed : List Json) (allowEmpty : Bool) (name : String) :
    Except Failure String :=
  match value with
  | .str s =>
    if !allowEmpty && Text.blank s then refuse (.empty name)
    else if !allowed.isEmpty && !allowed.any (Json.isText s) then
      refuse (.notAllowed name allowed s)
    else .ok s
  | _ => refuse (.notText name value.kind)

/-- An address: any text without blanks in it that is not empty. -/
def address (value : Json) (name : String) : Except Failure String :=
  match value with
  | .null => refuse (.notSet name)
  | _ => do
    let s ← text value [] false name
    if Text.hasBlank s then refuse (.blankInside name s) else return s

/-- The members of an object that has the required keys and, if the allowed keys
are listed, no others. -/
def object (value : Json) (required : List String) (allowed : Option (List String))
    (name : String) : Except Failure (List (String × Json)) :=
  match value with
  | .obj members =>
    let present := Json.keys members
    let missing := Text.distinctNames (required.filter (!present.contains ·))
    let unknown := match allowed with
      | none => []
      | some names => Text.distinctNames (present.filter (!names.contains ·))
    if !missing.isEmpty then refuse (.missingKeys name missing)
    else if !unknown.isEmpty then refuse (.unknownKeys name unknown)
    else .ok members
  | _ => refuse (.notObject name value.kind)

/-- A value that is checked step by step. -/
structure Chain where
  value : Json
  name : String

namespace Chain

/-- Reads the value as a numeral. -/
def isNumeral (c : Chain) : Except Failure Chain := do
  let n ← numeral c.value none c.name
  return { c with value := .int n }

/-- Asks for a positive integer. -/
def isPositive (c : Chain) : Except Failure Chain := do
  let n ← integer c.value (some 1) none c.name
  return { c with value := .int n }

/-- Asks for an integer of at most the bound. -/
def atMost (bound : Int) (c : Chain) : Except Failure Chain := do
  let n ← integer c.value none (some bound) c.name
  return { c with value := .int n }

end Chain

end PerpRollout.Check
