import PerpRollout.CommandLine.Arguments
import PerpRollout.Step

/-!
# What a command line asks for

The options of the program come before the command, those of a command after it.
-/

namespace PerpRollout.CommandLine

inductive Command where
  | list
  | «show» (environment : String) (withLedger : Bool)
  | plan (environment : String) (withLedger : Bool)
  | summary (environment : String) (withLedger : Bool)
  | validate (environment : String) (step : Option String) (deployable withLedger : Bool)
  | resolve (environment module address : String) (record : Bool)
  deriving DecidableEq, Repr

/-- A command and the settings it runs with. -/
structure Invocation where
  configFile : Option String
  databaseUrl : String
  logLevel : String
  logFile : Option String
  command : Command
  deriving DecidableEq, Repr

/-- What settings are unless the command line says otherwise. -/
structure Defaults where
  configFile : Option String := none
  databaseUrl : String
  environment : String := "local"
  logLevel : String := "INFO"
  logFile : Option String := none
  deriving DecidableEq, Repr

def helpSwitches : List Switch := [⟨"-h", .help⟩, ⟨"--help", .help⟩]

def commandNames : List String := ["list", "show", "plan", "summary", "validate", "resolve"]

def programUsage : Usage where
  options := helpSwitches ++ [⟨"--config-file", .value []⟩, ⟨"--database-url", .value []⟩,
    ⟨"--log-level", .value []⟩, ⟨"--log-file", .value []⟩]
  operands := [⟨"command", .command, commandNames⟩]

/-- The operand that names an environment, or leaves it to the settings. -/
def environmentOperand : Operand := ⟨"environment", .optional, []⟩

def commandUsage : String → Usage
  | "list" => ⟨helpSwitches, []⟩
  | "validate" =>
    ⟨helpSwitches ++ [⟨"--step", .value (Step.order.map Step.name)⟩, ⟨"--deployable", .flag⟩,
      ⟨"--with-ledger", .flag⟩], [environmentOperand]⟩
  | "resolve" =>
    ⟨helpSwitches ++ [⟨"--record", .flag⟩],
      [⟨"environment", .one, []⟩, ⟨"module", .one, Module.all.map Module.name⟩,
        ⟨"address", .one, []⟩]⟩
  | _ => ⟨helpSwitches ++ [⟨"--with-ledger", .flag⟩], [environmentOperand]⟩

/-- The command of that name with what its arguments say. -/
def Command.ofParsed (defaults : Defaults) (name : String) (p : Parsed) : Command :=
  let environment := (p.operand? "environment").getD defaults.environment
  let withLedger := p.has "--with-ledger"
  match name with
  | "list" => .list
  | "show" => .show environment withLedger
  | "plan" => .plan environment withLedger
  | "summary" => .summary environment withLedger
  | "validate" => .validate environment (p.value? "--step") (p.has "--deployable") withLedger
  | _ =>
    .resolve environment ((p.operand? "module").getD "") ((p.operand? "address").getD "")
      (p.has "--record")

/-- What the arguments ask for. -/
def Invocation.parse (defaults : Defaults) (arguments : List String) :
    Except Stop Invocation := do
  let program ← parseArguments programUsage arguments
  let name := program.command.headD ""
  let command ← parseArguments (commandUsage name) program.command.tail
  if program.leftOver || command.leftOver then throw .misuse
  return {
    configFile := (program.value? "--config-file").or defaults.configFile
    databaseUrl := (program.value? "--database-url").getD defaults.databaseUrl
    logLevel := (program.value? "--log-level").getD defaults.logLevel
    logFile := (program.value? "--log-file").or defaults.logFile
    command := .ofParsed defaults name command }

end PerpRollout.CommandLine
