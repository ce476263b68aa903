import PerpRollout.Fault
import PerpRollout.Json.Parser
import PerpRollout.Step

/-!
# Failures

Everything an operation of this library can fail with, by its cause.  The
wording of all messages is here.

An integer in a message may be too long to be written.  Then the message cannot
be made, and the failure is `integerTooLong` instead: `refuse` and `reject`
raise a failure with that provision.
-/

namespace PerpRollout

/-- What is wrong with a place of a deployment record, or with a registry. -/
inductive Reason where
  | fault (fault : Fault)
  | notInteger (value : Json)
  | notNumeral (value : Json)
  | notAddress (value : Json)
  | notText (value : Json)
  | notList (kind : Json.Kind)
  | decimalsDiffer (decimals reference : Int)
  | marginsCross (maintenance initial : Nat)
  | sameAsset (name : String)
  | repeatedAsset (symbol : String)
  | reserveZero (name : String)
  | productTooWide (product : Nat)
  | notMapping (kind : Json.Kind)
  | reservedNames (names : List String)
  | unreadable (path cause : String)
  | notJson (path : String) (flaw : Json.Flaw) (place : Json.Place)
  deriving Repr

namespace Reason

def message : Reason → String
  | .fault f => f.message
  | .notInteger value => "must be an integer, got " ++ value.display
  | .notNumeral value => "must be an integer string, got " ++ value.display
  | .notAddress value => "must be an address string, got " ++ value.display
  | .notText value => "must be a string, got " ++ value.display
  | .notList kind => "must be a list, got " ++ kind.name
  | .decimalsDiffer decimals reference =>
    "decimals " ++ Numeral.ofInt decimals ++ " does not match engineInitMsg.decimals " ++
      Numeral.ofInt reference
  | .marginsCross maintenance initial =>
    "maintenance margin " ++ Numeral.ofNat maintenance ++ " exceeds initial margin " ++
      Numeral.ofNat initial
  | .sameAsset name => "base and quote asset are both " ++ Text.quoted name
  | .repeatedAsset symbol => "duplicate asset " ++ Text.quoted symbol
  | .reserveZero name => name ++ " must be strictly positive at deployment"
  | .productTooWide product =>
    "reserve product " ++ Numeral.ofNat product ++ " does not fit in 256 bits"
  | .notMapping kind => "must be a mapping, got " ++ kind.name
  | .reservedNames names =>
    Text.quotedList names ++ " are reserved for the template form, not environment names"
  | .unreadable path cause => "cannot read " ++ path ++ ": " ++ cause
  | .notJson path flaw place => path ++ " is not valid JSON: " ++ flaw.report place

/-- No integer in the message is too long to be written. -/
def isWritable : Reason → Bool
  | .fault f => f.isWritable
  | .notInteger value => value.isWritable
  | .notNumeral value => value.isWritable
  | .notAddress value => value.isWritable
  | .notText value => value.isWritable
  | .decimalsDiffer decimals reference =>
    Numeral.isWritable decimals && Numeral.isWritable reference
  | .marginsCross maintenance initial =>
    Numeral.isWritable maintenance && Numeral.isWritable initial
  | .productTooWide product => Numeral.isWritable product
  | _ => true

end Reason

/-- A place that is not as it should be: the field, the environment whose record
it is in, if that is known, and the reason. -/
structure Invalid where
  field : String
  environment : Option String
  reason : Reason
  deriving Repr

/-- The text about an invalid place.  An environment is named only when it is
not empty. -/
def Invalid.text (environment : Json) (field reason : String) : String :=
  (if environment.holds then "[" ++ environment.plain ++ "] " else "") ++ field ++ ": " ++ reason

namespace Invalid

def message (e : Invalid) : String :=
  text ((e.environment.map Json.str).getD .null) e.field e.reason.message

/-- The same place, in the record of an environment. -/
def tagged (environment : String) (e : Invalid) : Invalid :=
  { e with environment := some environment }

end Invalid

/-- Why a file could not be reached. -/
inductive PathFault where
  | missing
  | isDirectory
  | notDirectory
  | exists
  | nameTooLong
  deriving DecidableEq, Repr

def PathFault.message : PathFault → String
  | .missing => "No such file or directory"
  | .isDirectory => "Is a directory"
  | .notDirectory => "Not a directory"
  | .exists => "File exists"
  | .nameTooLong => "File name too long"

/-- What an operation can fail with. -/
inductive Failure where
  | fault (fault : Fault)
  /-- A place of a record, or a registry, is not as it should be. -/
  | invalid (invalid : Invalid)
  /-- No record under this name; the names there are. -/
  | notFound (environment : Json) (available : List String)
  | duplicate (environment : String)
  | unknownModule (value : Json)
  | unknownStep (value : Json)
  /-- Not a name that a record can be registered under. -/
  | badName (value : Json)
  | notARecord (kind : Json.Kind)
  /-- A value that cannot be a key was looked up. -/
  | notAKey (kind : Json.Kind)
  /-- A numeral of this many digits was to be read. -/
  | numeralTooLong (digits : Nat)
  /-- An integer was to be written that has too many digits. -/
  | integerTooLong
  | notALiteral (text : String)
  | unknownLevel (name : String)
  | nullInPath
  | notADecimal
  /-- The amount has too many digits. -/
  | amountTooWide
  /-- The amount is beyond the range of decimals. -/
  | amountTooLarge
  | notUtf8
  | unwritable (cause : PathFault)
  | tablesMissing
  /-- The ledger file cannot be opened. -/
  | ledgerUnreachable
  | notALedger
  | rowTooLarge
  deriving Repr

namespace Failure

/-- The names a message offers when none of them was given. -/
def choices (what : String) (value : Json) (names : List String) : String :=
  "Unknown " ++ what ++ " " ++ value.display ++ ". Available: " ++ Text.quotedList names

/-- The text about a name without a record. -/
def notFoundText (environment : Json) (available : List String) : String :=
  "No deployment config for environment '" ++ environment.plain ++ "'" ++
    (if available.isEmpty then "" else ". Available: " ++ Text.quotedList available)

/-- The text about a name that has a record already. -/
def duplicateText (environment : Json) : String :=
  "Environment '" ++ environment.plain ++ "' is already registered"

/-- The text of a limit on numerals. -/
def limitText (about : String) : String :=
  "Exceeds the limit (" ++ Numeral.ofNat Numeral.digitLimit ++
    " digits) for integer string conversion" ++ about ++
      "; use sys.set_int_max_str_digits() to increase the limit"

/-- What a message says about a failure, where it says anything. -/
def message? : Failure → Option String
  | .fault f => some f.message
  | .invalid e => some e.message
  | .notFound environment available => some (notFoundText environment available)
  | .duplicate environment => some (duplicateText (.str environment))
  | .unknownModule value => some (choices "module" value (Module.all.map Module.name))
  | .unknownStep value => some (choices "deployment step" value (Step.order.map Step.name))
  | .badName value =>
    some ("Environment name must be a non-empty string, got " ++ value.display)
  | .notARecord kind => some ("Expected DeployConfig, got " ++ kind.name)
  | .notAKey kind => some ("unhashable type: '" ++ kind.name ++ "'")
  | .numeralTooLong digits =>
    some (limitText (": value has " ++ Numeral.ofNat digits ++ " digits"))
  | .integerTooLong => some (limitText "")
  | .notALiteral text =>
    some ("invalid literal for int() with base 10: " ++
      String.ofList ((Text.quoted text).toList.take 200))
  | .unknownLevel name => some ("Level '" ++ name ++ "' does not exist")
  | .nullInPath => some "embedded null byte"
  | _ => none

/-- The failure about a value, if the value can be shown. -/
def about (value : Json) (failure : Json → Failure) : Failure :=
  if value.isWritable then failure value else .integerTooLong

end Failure

def refuse {α : Type} (fault : Fault) : Except Failure α :=
  .error (if fault.isWritable then .fault fault else .integerTooLong)

def reject {α : Type} (field : String) (environment : Option String) (reason : Reason) :
    Except Failure α :=
  .error (if reason.isWritable then .invalid ⟨field, environment, reason⟩ else .integerTooLong)

def Module.parse (value : Json) : Except Failure Module :=
  match ofSpelling? value.plain with
  | some m => .ok m
  | none => .error (.about value .unknownModule)

def Step.parse (value : Json) : Except Failure Step :=
  match ofSpelling? value.plain with
  | some s => .ok s
  | none => .error (.about value .unknownStep)

end PerpRollout
