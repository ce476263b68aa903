import PerpRollout.Json.Display

/-!
# Faults of single values

What can be wrong with a value that is checked on its own, and how that is
told.  `name` is what the caller calls the value.
-/

namespace PerpRollout

/-- What is wrong with a value. -/
inductive Fault where
  | notInteger (name : String) (kind : Json.Kind)
  | below (name : String) (bound value : Int)
  | above (name : String) (bound value : Int)
  | notNumeralText (name : String) (kind : Json.Kind)
  | notNumeral (name text : String)
  /-- The numeral stands for more than the bound. -/
  | numeralAbove (name : String) (bound : Int) (numeral : String)
  | notText (name : String) (kind : Json.Kind)
  | empty (name : String)
  | notAllowed (name : String) (allowed : List Json) (text : String)
  | notSet (name : String)
  | blankInside (name text : String)
  | notObject (name : String) (kind : Json.Kind)
  | missingKeys (name : String) (keys : List String)
  | unknownKeys (name : String) (keys : List String)
  | negativeDecimals (decimals : Int)
  | notFinite (amount : Json)
  | negativeAmount (amount : Json)
  | zeroDenominator
  | zeroMargin
  deriving Repr

namespace Fault

def message : Fault → String
  | .notInteger name kind => name ++ " must be an integer, got " ++ kind.name
  | .below name bound value =>
    name ++ " must be >= " ++ Numeral.ofInt bound ++ ", got " ++ Numeral.ofInt value
  | .above name bound value =>
    name ++ " must be <= " ++ Numeral.ofInt bound ++ ", got " ++ Numeral.ofInt value
  | .notNumeralText name kind => name ++ " must be an integer string, got " ++ kind.name
  | .notNumeral name text =>
    name ++ " must be a non-negative base-10 integer string, got " ++ Text.quoted text
  | .numeralAbove name bound numeral =>
    name ++ " must be <= " ++ Numeral.ofInt bound ++ ", got " ++ numeral
  | .notText name kind => name ++ " must be string, got " ++ kind.name
  | .empty name => name ++ " cannot be empty"
  | .notAllowed name allowed text =>
    name ++ " must be one of " ++ Json.display (.arr allowed) ++ ", got " ++ text
  | .notSet name => name ++ " is not set"
  | .blankInside name text => name ++ " must not contain whitespace, got " ++ Text.quoted text
  | .notObject name kind => name ++ " must be dict, got " ++ kind.name
  | .missingKeys name keys => name ++ " missing required keys: " ++ Text.quotedList keys
  | .unknownKeys name keys => name ++ " has unknown keys: " ++ Text.quotedList keys
  | .negativeDecimals decimals => "decimals must be >= 0, got " ++ Numeral.ofInt decimals
  | .notFinite amount => "cannot encode non-finite value " ++ amount.plain
  | .negativeAmount amount => "fixed-point values must be non-negative, got " ++ amount.plain
  | .zeroDenominator => "denominator must be positive"
  | .zeroMargin => "initial_margin_ratio is zero, leverage is unbounded"

/-- No integer in the message is too long to be written. -/
def isWritable : Fault → Bool
  | .below _ bound value => Numeral.isWritable bound && Numeral.isWritable value
  | .above _ bound value => Numeral.isWritable bound && Numeral.isWritable value
  | .numeralAbove _ bound _ => Numeral.isWritable bound
  | .notAllowed _ allowed _ => Json.itemsWritable allowed
  | .negativeDecimals decimals => Numeral.isWritable decimals
  | .notFinite amount => amount.isWritable
  | .negativeAmount amount => amount.isWritable
  | _ => true

end Fault

end PerpRollout
