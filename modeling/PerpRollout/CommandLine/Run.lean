import PerpRollout.CommandLine.Invocation
import PerpRollout.Ledger.Location
import PerpRollout.Log.Sink
import PerpRollout.Plan
import PerpRollout.Record.Derived
import PerpRollout.Registry.File

/-!
# Running a command

A run reads a registry, does what the command asks for and prints the result as
JSON.  It ends with 0, with 1 when there is no record for an environment, and
with 2 when a record or an address is invalid.  Any other failure goes through.
A run can change files: it can write to a ledger, and to a log.
-/

namespace PerpRollout.CommandLine

inductive Ending where
  | exit (code : Nat) (output : String)
  /-- The arguments are not understood, or ask for help. -/
  | usage (code : Nat)
  | failed (e : Failure)
  deriving Repr

/-- What a run leaves behind: how it ended, the lines it logged, and the files. -/
structure Outcome where
  ending : Ending
  lines : List Log.Line
  files : Files Content

/-- What is done in a directory: a logged result, and the files after it.  Files
stay changed even if what follows fails. -/
def Act (α : Type) : Type := Files Content → Logged α × Files Content

namespace Act

variable {α β : Type}

def ofLogged (x : Logged α) : Act α := fun files => (x, files)

def bind (x : Act α) (f : α → Act β) : Act β := fun files =>
  let (first, files) := x files
  match first.result with
  | .error e => (⟨first.lines, .error e⟩, files)
  | .ok a =>
    let (second, files) := f a files
    (⟨first.lines ++ second.lines, second.result⟩, files)

instance : Monad Act where
  pure a := ofLogged (.pure a)
  bind := bind

instance : MonadLift Logged Act where
  monadLift := ofLogged

instance : MonadLift (Except Failure) Act where
  monadLift x := ofLogged (.ofExcept x)

end Act

def openLedger (url : String) : Act Ledger :=
  Ledger.openAt url true

/-- Keeps the ledger after a write. -/
def keepLedger (url : String) (l : Ledger) : Act Unit := fun files =>
  (.pure (), Ledger.keep url l files)

/-- A value as it is printed. -/
def printed (v : Json) : Act String :=
  match v.render .indented with
  | (text, true) => pure (text ++ "\n")
  | (_, false) => Act.ofLogged (.fail .integerTooLong)

/-- The record of an environment, with the addresses in the ledger if asked for. -/
def loadRecord (i : Invocation) (r : Registry) (environment : String) (withLedger : Bool) :
    Act Record := do
  let e ← r.get (.str environment)
  if withLedger then
    let l ← openLedger i.databaseUrl
    l.apply e.record environment
  else return e.record

/-- The names of modules, as they are printed. -/
def modulesJson (ms : List Module) : Json :=
  .arr (ms.map fun m => .str m.name)

/-- The plan of a record, as it is printed. -/
def planJson (r : Record) : Json :=
  .arr (r.plan.map fun (s, missing) => .obj [
    ("step", .str s.name), ("ready", .bool missing.isEmpty), ("missing", modulesJson missing)])

/-- A decimal as it is printed, or null when the number it depends on is zero. -/
def unlessZero (numeral : String) (d : Except Failure Decimal) : Except Failure Json := do
  if (← Vamm.reserve numeral) = 0 then return .null
  else return .str (← d).plain

/-- The values derived from a record, as they are printed. -/
def summaryJson (environment : String) (r : Record) : Except Failure Json := do
  let price ← unlessZero r.vamm.baseReserve r.vamm.initialSpotPrice
  let k ← r.vamm.initialK
  let leverage ← unlessZero r.engine.initialMarginRatio r.engine.maxLeverage
  let toll ← FixedPoint.toDecimal (.str r.vamm.tollRatio) r.vamm.decimals "value"
  return .obj [
    ("environment", .str environment),
    ("pair", .str r.vamm.pair),
    ("initial_price", price),
    ("k", .int k),
    ("max_leverage", leverage),
    ("funding_period_seconds", .int r.vamm.fundingPeriod),
    ("toll_ratio", .str toll.plain),
    ("unresolved", modulesJson r.unresolved)]

/-- Does what the command asks for.  The result is what is printed. -/
def perform (i : Invocation) : Act String := do
  let r ← fun files => (Registry.source files i.configFile 0, files)
  match i.command with
  | .list => printed (.arr (r.names.map .str))
  | .resolve environment module address record =>
    let (resolved, _) ← r.resolve (.str environment) (.str module) (.str address)
    if record then
      let l ← openLedger i.databaseUrl
      let store : Store := ⟨some r.names⟩
      let (_, l) ← store.record environment (.str module) (.str address) l
      keepLedger i.databaseUrl l
    printed resolved.toJson
  | .show environment withLedger =>
    let record ← loadRecord i r environment withLedger
    printed record.toJson
  | .validate environment step deployable withLedger =>
    let record ← loadRecord i r environment withLedger
    let scope := Rules.Scope.of ((step.map Json.str).getD .null) deployable
    let _ ← Rules.validate record (some environment) scope
    Logged.log [Log.line .info ("✓ " ++ environment ++ " is valid")]
    printed (.obj [("environment", .str environment), ("valid", .bool true)])
  | .plan environment withLedger =>
    let record ← loadRecord i r environment withLedger
    printed (planJson record)
  | .summary environment withLedger =>
    let record ← loadRecord i r environment withLedger
    let _ ← Rules.validate record (some environment) .template
    printed (← summaryJson environment record)

/-- The line about the failure that a run ends with. -/
def endLine (e : Failure) : Log.Line :=
  Log.line .error ("❌ " ++ e.message?.getD "")

/-- How a run ends, and the last line it logs. -/
def conclude : Except Failure String → Ending × List Log.Line
  | .ok output => (.exit 0 output, [])
  | .error e =>
    match e with
    | .notFound .. => (.exit 1 "", [endLine e])
    | .invalid _ => (.exit 2 "", [endLine e])
    | .fault _ => (.exit 2 "", [endLine e])
    | _ => (.failed e, [])

def Invocation.logSettings (i : Invocation) : Log.Settings where
  file := i.logFile
  level := i.logLevel

/-- Adds lines to a log file, in a directory made for it. -/
def appendLog (path : Path) (lines : List Log.Line) (files : Files Content) :
    Except Failure (Files Content) :=
  if path.hasNull then .error .nullInPath
  else
    match files.makeParent path with
    | .error fault => .error (.unwritable fault)
    | .ok made =>
      match made.target path with
      | .error fault => .error (.unwritable fault)
      | .ok names =>
        let old := match made.content? names with
          | some (.log old) => old
          | _ => []
        .ok (made.put names (.log (old ++ lines)))

/-- Runs the program with these arguments in a directory.  Lines below the level
of the run are not kept. -/
def run (defaults : Defaults) (arguments : List String) (files : Files Content) : Outcome :=
  match Invocation.parse defaults arguments with
  | .error .help => ⟨.usage 0, [], files⟩
  | .error .misuse => ⟨.usage 2, [], files⟩
  | .ok i =>
    match Log.Level.parse i.logLevel with
    | .error e => ⟨.failed e, [], files⟩
    | .ok level =>
      let ready := match i.logSettings.path? with
        | some path => appendLog path (Log.atLeast level [i.logSettings.configured]) files
        | none => .ok files
      match ready with
      | .error e => ⟨.failed e, [], files⟩
      | .ok files =>
        let (x, files) := perform i files
        let (ending, last) := conclude x.result
        let lines := Log.atLeast level (x.lines ++ last)
        let files := match i.logSettings.path? with
          | some path => ((appendLog path lines files).toOption).getD files
          | none => files
        ⟨ending, lines, files⟩

end PerpRollout.CommandLine
