import PerpRollout.Json.Printer
import PerpRollout.Ledger.Basic

/-!
# Deployment store

The operations on a ledger.  Writes can be restricted to a set of environments.
While the tables are missing every operation that reaches them fails, and logs
that it did.
-/

namespace PerpRollout

/-- How a ledger is used: the names that writes are restricted to, if any. -/
structure Store where
  environments : Option (List String) := none
  deriving Repr

namespace Ledger

/-- The line about a failed operation on the tables. -/
def errorLine (detail : String) : Log.Line :=
  Log.line .error ("Database error" ++ detail)

/-- The tables, or the failure that they are missing. -/
def reach (l : Ledger) : Logged Tables :=
  match l.tables? with
  | some t => .pure t
  | none => ⟨[errorLine ""], .error .tablesMissing⟩

/-- Creates the tables, unless they are there. -/
def create (l : Ledger) : List Log.Line × Ledger :=
  ([Log.line .info "All database tables created successfully"],
    { l with tables? := some (l.tables?.getD {}) })

/-- Drops the tables with all their rows. -/
def drop (_ : Ledger) : List Log.Line × Ledger :=
  ([Log.line .warning "All database tables dropped"], {})

def history (l : Ledger) (environment : String) : Logged (List (Module × String)) := do
  return (← l.reach).history environment

/-- The last address recorded for each module of an environment. -/
def latestOf (l : Ledger) (environment : String) : Logged (List (Module × String)) := do
  return latest (← l.history environment)

/-- Puts addresses into the slots of a record, one after the other. -/
def replay (r : Record) : List (Module × String) → Logged Record
  | [] => .pure r
  | (m, a) :: rest => do replay (← r.resolve m (.str a)) rest

/-- The record with the addresses recorded for an environment. -/
def apply (l : Ledger) (r : Record) (environment : String) : Logged Record := do
  replay r (← l.latestOf environment)

/-- The numbers of the snapshots of an environment, in order. -/
def snapshotIds (l : Ledger) (environment : String) : Logged (List Nat) := do
  return ((← l.reach).snapshotsOf environment).map SnapshotRow.id

/-- The row numbers that can be asked for: those of 64 bits. -/
def isRowNumber (id : Int) : Bool :=
  -9223372036854775808 ≤ id && id ≤ 9223372036854775807

def restore (row : SnapshotRow) : Except Failure Record :=
  match Json.parse Numeral.digitLimit row.payload.toList with
  | .ok v => Record.ofJson v
  | .error _ => .error .notALedger

/-- A snapshot of an environment: the one of that number, or the latest. -/
def load (l : Ledger) (environment : String) (id : Option Int) : Logged Record := do
  let t ← l.reach
  match id.filter (!isRowNumber ·) with
  | some _ =>
    Logged.log [errorLine ": Python int too large to convert to SQLite INTEGER"]
    .fail .rowTooLarge
  | none =>
    let rows := (t.snapshotsOf environment).filter fun row => id.all (row.id = ·)
    match rows.getLast? with
    | some row => restore row
    | none => .fail (.notFound (.str environment) [])

end Ledger

namespace Store

/-- Fails unless the environment may be written to. -/
def permit (s : Store) (environment : String) : Except Failure Unit :=
  match s.environments with
  | none => .ok ()
  | some names =>
    if names.contains environment then .ok ()
    else .error (.notFound (.str environment) (Text.distinctNames names))

/-- Records an address for the module that a value names.  The outcome is the
number of the row, with the new ledger. -/
def record (s : Store) (environment : String) (module address : Json) (l : Ledger) :
    Logged (Nat × Ledger) := do
  s.permit environment
  let m ← Module.parse module
  let a ← within m.path (some environment) (Check.address address m.path)
  let t ← l.reach
  let (id, t) := t.record environment m a
  Logged.log [Log.bound environment .info ("Recorded " ++ m.name ++ " -> " ++ a)]
  return (id, ⟨some t⟩)

/-- The text that a snapshot of a record holds. -/
def payload (r : Record) : Except Failure String :=
  match r.toJson.sortKeys.render .line with
  | (text, true) => .ok text
  | (_, false) => .error .integerTooLong

/-- Saves a snapshot of a record.  The outcome is its number, with the new ledger. -/
def save (s : Store) (environment : String) (r : Record) (l : Ledger) :
    Logged (Nat × Ledger) := do
  s.permit environment
  let text ← payload r
  let t ← l.reach
  let (id, t) := t.save environment text
  Logged.log [Log.bound environment .info ("Saved config snapshot " ++ Numeral.ofNat id)]
  return (id, ⟨some t⟩)

end Store

end PerpRollout
