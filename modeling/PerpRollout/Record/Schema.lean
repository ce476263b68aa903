import PerpRollout.Check

/-!
# Fields of the sections

What the sections of a written record may hold: for each field its name, the
kind of its values and whether it must be there.  A section is read by this
table, field by field in the order it is written.
-/

namespace PerpRollout

/-- The kinds of field values. -/
inductive FieldKind where
  /-- An integer. -/
  | integer
  /-- A text, or an integer in place of its numeral. -/
  | numeral
  /-- A text; null and the empty text both stand for no address. -/
  | address
  /-- A text. -/
  | text
  deriving DecidableEq, Repr

/-- A field of a section. -/
structure Field where
  name : String
  kind : FieldKind
  required : Bool := true
  deriving DecidableEq, Repr

/-- The fields of a section; those of one asset for the list of assets. -/
def Section.fields : Section → List Field
  | .initialAssets =>
    [⟨"symbol", .text, true⟩, ⟨"address", .address, false⟩, ⟨"decimals", .integer, false⟩]
  | .insuranceFund => []
  | .priceFeed => [⟨"decimals", .integer, true⟩, ⟨"oracle_hub_contract", .address, false⟩]
  | .engine =>
    [⟨"decimals", .integer, true⟩, ⟨"initial_margin_ratio", .numeral, true⟩,
      ⟨"maintenance_margin_ratio", .numeral, true⟩, ⟨"liquidation_fee", .numeral, true⟩,
      ⟨"insurance_fund", .address, false⟩, ⟨"fee_pool", .address, false⟩,
      ⟨"eligible_collateral", .address, false⟩]
  | .vamm =>
    [⟨"decimals", .integer, true⟩, ⟨"quote_asset", .text, true⟩, ⟨"base_asset", .text, true⟩,
      ⟨"quote_asset_reserve", .numeral, true⟩, ⟨"base_asset_reserve", .numeral, true⟩,
      ⟨"funding_period", .integer, true⟩, ⟨"toll_ratio", .numeral, true⟩,
      ⟨"spread_ratio", .numeral, true⟩, ⟨"fluctuation_limit_ratio", .numeral, true⟩,
      ⟨"pricefeed", .address, false⟩]

/-- A field value that was read. -/
inductive Datum where
  | integer (n : Int)
  | text (s : String)
  | address (a : Option String)
  deriving DecidableEq, Repr

/-- The value of a field of that kind. -/
def FieldKind.read (path : String) : FieldKind → Json → Except Failure Datum
  | .integer, .int n => .ok (.integer n)
  | .integer, v => reject path none (.notInteger v)
  | .numeral, .int n =>
    if Numeral.isWritable n then .ok (.text (Numeral.ofInt n)) else .error .integerTooLong
  | .numeral, .str s => .ok (.text s)
  | .numeral, v => reject path none (.notNumeral v)
  | .address, .null => .ok (.address none)
  | .address, .str s => .ok (.address (if s.isEmpty then none else some s))
  | .address, v => reject path none (.notAddress v)
  | .text, .str s => .ok (.text s)
  | .text, v => reject path none (.notText v)

/-- A fault becomes the reason why a place is invalid. -/
def within {α : Type} (field : String) (environment : Option String) :
    Except Failure α → Except Failure α
  | .error (.fault f) => .error (.invalid ⟨field, environment, .fault f⟩)
  | r => r

namespace Section

/-- The names of the fields. -/
def fieldNames (s : Section) : List String :=
  s.fields.map Field.name

/-- The names of the fields that must be there. -/
def requiredNames (s : Section) : List String :=
  (s.fields.filter Field.required).map Field.name

/-- The kind of the field of that name; a text if the section has no such field. -/
def kindOf (s : Section) (name : String) : FieldKind :=
  ((s.fields.find? fun f => f.name = name).map Field.kind).getD .text

/-- The fields of a written section, in the order they are written. -/
def read (s : Section) (raw : Json) : Except Failure (List (String × Datum)) := do
  let members ← within s.key none
    (Check.object raw s.requiredNames (some s.fieldNames) s.key)
  members.mapM fun (name, value) => do
    let datum ← (s.kindOf name).read (s.path name) value
    return (name, datum)

end Section

namespace Datum

/-- The integer under that name. -/
def integerOf (name : String) (default : Int) (data : List (String × Datum)) : Int :=
  match data.lookup name with
  | some (.integer n) => n
  | _ => default

/-- The text under that name. -/
def textOf (name : String) (data : List (String × Datum)) : String :=
  match data.lookup name with
  | some (.text s) => s
  | _ => ""

/-- The address under that name. -/
def addressOf (name : String) (data : List (String × Datum)) : Option String :=
  match data.lookup name with
  | some (.address a) => a
  | _ => none

end Datum

end PerpRollout
