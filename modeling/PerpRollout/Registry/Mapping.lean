import PerpRollout.Json.Overlay
import PerpRollout.Registry.Basic

/-!
# Registries from written records

A written registry is an object with a record for each environment, or in the
template form: `defaults`, and under `environments` what each environment
overrides.  The keys of the template form are therefore no environment names.
-/

namespace PerpRollout.Registry

/-- The key of the shared part in the template form. -/
def defaultsKey : String := "defaults"

/-- The key of the environments in the template form. -/
def environmentsKey : String := "environments"

/-- The keys of the template form. -/
def templateKeys : List String := [defaultsKey, environmentsKey]

/-- The members of a part of the template form; null stands for none. -/
def part (value : Json) (field : String) (environment : Option String) :
    Except Failure (List (String × Json)) :=
  match value with
  | .null => .ok []
  | v => within field environment (Check.object v [] none field)

/-- The object is in the template form. -/
def isTemplate (members : List (String × Json)) : Bool :=
  (Json.keys members).contains environmentsKey &&
    (Json.keys members).all templateKeys.contains

/-- The records of the template form: each override on top of the defaults. -/
def templateRecords (members : List (String × Json)) :
    Except Failure (List (String × Json)) := do
  let value (key : String) : Json := (Json.member? key members).getD .null
  let defaults ← part (value defaultsKey) defaultsKey none
  let overrides ← part (value environmentsKey) environmentsKey none
  overrides.mapM fun (name, override) => do
    let changes ← part override (environmentsKey ++ "." ++ name) (some name)
    return (name, .obj (Json.overlayMembers defaults changes))

/-- The written record of each environment, in the order they are written. -/
def writtenRecords (raw : Json) : Except Failure (List (String × Json)) :=
  match raw with
  | .obj members =>
    if isTemplate members then templateRecords members
    else
      let reserved := Text.sortNames (templateKeys.filter (Json.keys members).contains)
      if reserved.isEmpty then .ok members
      else reject "registry" none (.reservedNames reserved)
  | v => reject "registry" none (.notMapping v.kind)

/-- Registers written records one after the other. -/
def registerAll (r : Registry) : List (String × Json) → Logged Registry
  | [] => .pure r
  | (name, raw) :: rest => do
    let record ← tag name (.ofExcept (Record.ofJson raw))
    registerAll (← r.register (.str name) (.record record)) rest

/-- The registry that a value writes down.  Its records are numbered from
`issued` on. -/
def ofJson (raw : Json) (issued : Nat) : Logged Registry := do
  let records ← writtenRecords raw
  registerAll { issued } records

end PerpRollout.Registry
