import PerpRollout.Record.Address

/-!
# Registry of records

A registry holds one record for each environment, with the addresses that were
resolved since the record was registered.  Records are never altered: resolving
an address puts a new record in place of the old one.

The registry numbers the records it takes in, so that two records can be told
apart even if they are equal.  A record that is registered under a second name
keeps its number, and so does one that a resolution leaves as it is.
-/

namespace PerpRollout

/-- A record under the number it was issued with. -/
structure Edition where
  record : Record
  serial : Nat
  deriving DecidableEq, Repr

/-- What a registry keeps of an environment. -/
structure Entry where
  name : String
  edition : Edition
  history : List (Module × String) := []
  deriving DecidableEq, Repr

/-- The entries, by the code points of their names, and the count of the numbers
issued. -/
structure Registry where
  entries : List Entry := []
  issued : Nat := 0
  deriving DecidableEq, Repr

/-- What is offered for registration. -/
inductive Submission where
  | record (r : Record)
  /-- A record that has a number already. -/
  | edition (e : Edition)
  | other (v : Json)
  deriving Repr

namespace Registry

/-- The names of the environments, by code points. -/
def names (r : Registry) : List String :=
  r.entries.map Entry.name

def size (r : Registry) : Nat :=
  r.entries.length

def find? (r : Registry) (name : String) : Option Entry :=
  r.entries.find? fun e => e.name = name

/-- The entry that a value names; only a text is the name of one. -/
def findJson? (r : Registry) : Json → Option Entry
  | .str name => r.find? name
  | _ => none

/-- Whether a value is the name of an environment.  Lists and objects cannot be
looked up. -/
def contains (r : Registry) (environment : Json) : Except Failure Bool :=
  match environment with
  | .arr _ => .error (.notAKey .arr)
  | .obj _ => .error (.notAKey .obj)
  | v => .ok (r.findJson? v).isSome

/-- Some environment has this very record now. -/
def holds (r : Registry) (e : Edition) : Bool :=
  r.entries.any fun entry => entry.edition.serial = e.serial

/-- The entry of an environment, or the failure that there is none. -/
def entry (r : Registry) (environment : Json) : Logged Entry :=
  match r.findJson? environment with
  | some e => ⟨[Log.line .debug ("Loaded deployment config for " ++ e.name)], .ok e⟩
  | none => .fail (.about environment (.notFound · r.names))

def get (r : Registry) (environment : Json) : Logged Edition := do
  return (← r.entry environment).edition

/-- The addresses resolved for an environment, oldest first. -/
def history (r : Registry) (environment : Json) : Logged (List (Module × String)) := do
  return (← r.entry environment).history

/-- Puts an entry in its place among entries with other names. -/
def insertEntry (e : Entry) : List Entry → List Entry
  | [] => [e]
  | x :: rest => if e.name < x.name then e :: x :: rest else x :: insertEntry e rest

/-- The name of an environment, if a value can be one: a text that is not blank. -/
def nameOf (environment : Json) : Except Failure String :=
  match environment with
  | .str name => if Text.blank name then .error (.badName environment) else .ok name
  | v => .error (.about v .badName)

/-- The edition of what is offered, and the count of the numbers issued after it. -/
def accept (issued : Nat) : Submission → Except Failure (Edition × Nat)
  | .record record => .ok (⟨record, issued⟩, issued + 1)
  | .edition e => .ok (e, issued)
  | .other v => .error (.notARecord v.kind)

/-- Adds an environment.  Names are unique. -/
def register (r : Registry) (environment : Json) (offer : Submission) : Logged Registry := do
  let name ← nameOf environment
  if (r.find? name).isSome then Logged.fail (.duplicate name)
  else do
    let (edition, issued) ← accept r.issued offer
    Logged.log [Log.line .debug ("Registered environment " ++ name)]
    return ⟨insertEntry ⟨name, edition, []⟩ r.entries, issued⟩

/-- A failure about a place belongs to the record of an environment. -/
def tag {α : Type} (environment : String) (x : Logged α) : Logged α :=
  match x.result with
  | .error (.invalid e) => ⟨x.lines, .error (.invalid (e.tagged environment))⟩
  | _ => x

/-- The entry after a resolution.  A record that stays as it is keeps its number. -/
def Entry.resolved (e : Entry) (issued : Nat) (new : Record) (m : Module) (a : String) : Entry :=
  { e with
    edition := if new = e.edition.record then e.edition else ⟨new, issued⟩
    history := e.history ++ [(m, a)] }

/-- Puts an entry in place of the one of the same name. -/
def replaceEntry (e : Entry) (entries : List Entry) : List Entry :=
  entries.map fun x => if x.name = e.name then e else x

/-- Resolves an address for an environment.  The outcome is the new record, with
the new registry. -/
def resolve (r : Registry) (environment module address : Json) : Logged (Record × Registry) := do
  let e ← r.entry environment
  let m ← Module.parse module
  let new ← tag e.name (e.edition.record.resolve m address)
  let a := address.plain
  Logged.log [Log.bound e.name .info ("Resolved " ++ m.name ++ " -> " ++ a)]
  return (new, ⟨replaceEntry (Entry.resolved e r.issued new m a) r.entries, r.issued + 1⟩)

/-- Registers editions one after the other. -/
def registerEditions (r : Registry) : List (String × Edition) → Logged Registry
  | [] => .pure r
  | (name, e) :: rest => do registerEditions (← r.register (.str name) (.edition e)) rest

/-- A registry with the same records and no histories. -/
def copy (r : Registry) : Logged Registry := do
  let editions ← r.names.mapM fun name => do return (name, ← r.get (.str name))
  registerEditions { issued := r.issued } editions

/-- The registry as it is written, environments by name. -/
def toJson (r : Registry) : Json :=
  .obj (r.entries.map fun e => (e.name, e.edition.record.toJson))

end Registry

end PerpRollout
