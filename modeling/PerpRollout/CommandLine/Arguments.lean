import PerpRollout.Text.Digit

/-!
# Command line arguments

A parser for the arguments of a command, by a table of its options and operands.
Long options may be shortened as long as they stay unambiguous, values follow
their option or an `=` in the same argument, and after `--` everything is an
operand.  Options and operands may come in any order.

Arguments are first told apart, each on its own: `Token`.  Then they are used up
from the front, an option with its value or a run of operands at a time.
-/

namespace PerpRollout.CommandLine

inductive Action where
  /-- Shows the help and ends the program. -/
  | help
  | flag
  /-- Takes a value, one of the choices if there are any. -/
  | value (choices : List String)
  deriving DecidableEq, Repr

structure Switch where
  name : String
  action : Action
  deriving DecidableEq, Repr

/-- How many arguments an operand takes. -/
inductive Arity where
  | one
  | optional
  /-- The name of a command and all arguments after it. -/
  | command
  deriving DecidableEq, Repr

structure Operand where
  name : String
  arity : Arity
  choices : List String := []
  deriving DecidableEq, Repr

structure Usage where
  options : List Switch
  operands : List Operand
  deriving Repr

/-- How the program ends instead of running. -/
inductive Stop where
  | help
  | misuse
  deriving DecidableEq, Repr

/-- A value in the same argument as its option. -/
inductive Attached where
  | none
  /-- After an `=`. -/
  | equals (value : String)
  /-- Right after a one-letter option. -/
  | joined (value : String)
  deriving DecidableEq, Repr

inductive Token where
  | operand (text : String)
  | option (found : Switch) (attached : Attached)
  /-- It looks like an option, but no such option is known. -/
  | unknown (text : String)
  /-- The first `--`. -/
  | dashes
  deriving DecidableEq, Repr

/-- What the arguments say: options and operands with their values, the arguments
of a command, and whether arguments were left over. -/
structure Parsed where
  options : List (String × Option String) := []
  operands : List (String × String) := []
  command : List String := []
  leftOver : Bool := false
  deriving DecidableEq, Repr

/-- The parts of a text before and after the first `=`. -/
def splitEquals (cs : List Char) : List Char × Option (List Char) :=
  match cs.span (· != '=') with
  | (before, []) => (before, none)
  | (before, _ :: after) => (before, some after)

/-- A negative number, which is an operand although it starts with `-`. -/
def isNegativeNumber (cs : List Char) : Bool :=
  let isDigit (c : Char) : Bool := (Text.digitValue? c).isSome
  let number (cs : List Char) : Bool :=
    match cs.span isDigit with
    | (ds, []) => !ds.isEmpty
    | (_, '.' :: ds) => !ds.isEmpty && ds.all isDigit
    | _ => false
  match cs with
  | '-' :: rest => number rest || (rest.getLast? = some '\n' && number rest.dropLast)
  | _ => false

/-- The options that an argument can mean, each with an attached value. -/
def candidates (options : List Switch) (cs : List Char) : List (Switch × Attached) :=
  match cs with
  | '-' :: '-' :: _ =>
    let (start, value) := splitEquals cs
    let attached := match value with
      | some v => Attached.equals (String.ofList v)
      | none => .none
    (options.filter fun o => start.isPrefixOf o.name.toList).map (·, attached)
  | _ =>
    options.filterMap fun o =>
      if o.name.toList = cs.take 2 then some (o, .joined (String.ofList (cs.drop 2)))
      else if cs.isPrefixOf o.name.toList then some (o, .none)
      else none

/-- What an argument is that stands before the first `--`. -/
def classify (options : List Switch) (text : String) : Except Stop Token :=
  let cs := text.toList
  let named (cs : List Char) : Option Switch := options.find? fun o => o.name.toList = cs
  match cs with
  | '-' :: _ :: _ =>
    match named cs with
    | some o => .ok (.option o .none)
    | none =>
      match splitEquals cs with
      | (name, some value) =>
        match named name with
        | some o => .ok (.option o (.equals (String.ofList value)))
        | none => guess cs
      | (_, none) => guess cs
  | _ => .ok (.operand text)
where
  /-- What an argument is that is no option by its full name. -/
  guess (cs : List Char) : Except Stop Token :=
    match candidates options cs with
    | [(o, attached)] => .ok (.option o attached)
    | [] =>
      if isNegativeNumber cs || cs.contains ' ' then .ok (.operand (String.ofList cs))
      else .ok (.unknown (String.ofList cs))
    | _ => .error .misuse

/-- What all arguments are; after the first `--` all of them are operands. -/
def tokens (options : List Switch) : List String → Except Stop (List Token)
  | [] => .ok []
  | text :: rest =>
    if text = "--" then .ok (.dashes :: rest.map Token.operand)
    else do return (← classify options text) :: (← tokens options rest)

/-- The token is an option, known or not. -/
def Token.isOption : Token → Bool
  | .option .. => true
  | .unknown _ => true
  | _ => false

/-- The tokens without `--` at the front. -/
def dropDashes (ts : List Token) : List Token :=
  ts.dropWhile (· = .dashes)

/-- The first operand, and the tokens after it. -/
def takeOperand (ts : List Token) : Option (String × List Token) :=
  match dropDashes ts with
  | .operand text :: rest => some (text, dropDashes rest)
  | _ => none

/-- Checks a value against the choices. -/
def choose (choices : List String) (value : String) : Except Stop Unit :=
  if choices.isEmpty || choices.contains value then .ok () else .error .misuse

/-- Uses up operands, as many as the tokens at the front allow.  The outcome is
the operands still to come, the tokens left, and what was found.  `texts` are the
arguments that the tokens stand for: a command takes all of them as they are, a `--`
at their front included. -/
def useOperands : List Operand → List Token → List String → Parsed →
    Except Stop (List Operand × List Token × Parsed)
  | [], ts, _, found => .ok ([], ts, found)
  | o :: rest, ts, texts, found =>
    match o.arity with
    | .one =>
      match takeOperand ts with
      | none => .ok (o :: rest, ts, found)
      | some (text, ts') => do
        choose o.choices text
        useOperands rest ts' (texts.drop (ts.length - ts'.length))
          { found with operands := found.operands ++ [(o.name, text)] }
    | .optional =>
      match takeOperand ts with
      | none =>
        let ts' := dropDashes ts
        useOperands rest ts' (texts.drop (ts.length - ts'.length)) found
      | some (text, ts') => do
        choose o.choices text
        useOperands rest ts' (texts.drop (ts.length - ts'.length))
          { found with operands := found.operands ++ [(o.name, text)] }
    | .command =>
      match takeOperand ts with
      | none => .ok (o :: rest, ts, found)
      | some _ => do
        choose o.choices (texts.headD "")
        useOperands rest [] [] { found with command := texts }

/-- Uses up an option with its value.  `rest` are the tokens after it; the outcome
is the tokens left. -/
def useOption (options : List Switch) (o : Switch) (attached : Attached) (rest : List Token)
    (found : Parsed) : Except Stop (List Token × Parsed) :=
  match o.action with
  | .value choices =>
    let give (value : String) (rest : List Token) : Except Stop (List Token × Parsed) := do
      choose choices value
      return (rest, { found with options := found.options ++ [(o.name, some value)] })
    match attached with
    | .equals v => give v rest
    | .joined v => give v rest
    | .none =>
      match rest with
      | .operand v :: rest => give v rest
      | _ => .error .misuse
  | action =>
    match attached with
    | .none =>
      if action = .help then .error .help
      else .ok (rest, { found with options := found.options ++ [(o.name, none)] })
    | .equals _ => .error .misuse
    | .joined v => .error (joinedLetters options v.toList)
where
  /-- How a one-letter option ends the program that further letters follow.  The
  only one-letter option asks for help. -/
  joinedLetters (options : List Switch) : List Char → Stop
    | [] => .help
    | '-' :: _ => .misuse
    | c :: rest =>
      if options.any fun o => o.name.toList = ['-', c] then
        match rest with
        | '=' :: _ => .misuse
        | _ => joinedLetters options rest
      else .help

/-- Uses up all tokens, an option or a run of operands at a time.  `steps` bounds
the number of turns; each turn uses up a token. -/
def useTokens (usage : Usage) : (steps : Nat) → List Operand → List Token → List String → Parsed →
    Except Stop (List Operand × Parsed)
  | 0, operands, ts, _, found =>
    .ok (operands, { found with leftOver := found.leftOver || !ts.isEmpty })
  | steps + 1, operands, ts, texts, found =>
    if !ts.any Token.isOption then do
      let (operands, ts, found) ← useOperands operands ts texts found
      return (operands, { found with leftOver := found.leftOver || !ts.isEmpty })
    else
      match ts with
      | .option o attached :: rest => do
        let (rest', found) ← useOption usage.options o attached rest found
        useTokens usage steps operands rest' (texts.drop (ts.length - rest'.length)) found
      | .unknown _ :: rest =>
        useTokens usage steps operands rest (texts.drop 1) { found with leftOver := true }
      | _ => do
        let (operands, ts', found) ← useOperands operands ts texts found
        if ts'.length < ts.length then
          useTokens usage steps operands ts' (texts.drop (ts.length - ts'.length)) found
        else
          let ts' := ts.dropWhile (!·.isOption)
          useTokens usage steps operands ts' (texts.drop (ts.length - ts'.length))
            { found with leftOver := true }

def Operand.isRequired (o : Operand) : Bool :=
  o.arity != .optional

/-- What the arguments of a command say. -/
def parseArguments (usage : Usage) (arguments : List String) : Except Stop Parsed := do
  let ts ← tokens usage.options arguments
  let (missing, found) ← useTokens usage (2 * ts.length + 1) usage.operands ts arguments {}
  if missing.any Operand.isRequired then throw .misuse
  return found

namespace Parsed

/-- The last value given to an option. -/
def value? (p : Parsed) (name : String) : Option String :=
  ((p.options.filter fun o => o.1 = name).getLast?.map Prod.snd).join

def has (p : Parsed) (name : String) : Bool :=
  p.options.any fun o => o.1 = name

def operand? (p : Parsed) (name : String) : Option String :=
  p.operands.lookup name

end Parsed

end PerpRollout.CommandLine
