import PerpRollout.Log
import PerpRollout.Record.Basic

/-!
# Address slots of a record

A slot is empty until the contract of its module is deployed.  Resolving a
module fills its slot, which gives a new record; resolving it to the address the
slot holds already gives the same record.
-/

namespace PerpRollout.Record

def address (r : Record) : Module → Option String
  | .oracleHub => r.priceFeed.oracleHub
  | .insuranceFund => r.engine.insuranceFund
  | .feePool => r.engine.feePool
  | .eligibleCollateral => r.engine.eligibleCollateral
  | .pricefeed => r.vamm.pricefeed

/-- The record with an address in the slot of a module. -/
def setAddress (r : Record) (m : Module) (a : String) : Record :=
  match m with
  | .oracleHub => { r with priceFeed := { r.priceFeed with oracleHub := some a } }
  | .insuranceFund => { r with engine := { r.engine with insuranceFund := some a } }
  | .feePool => { r with engine := { r.engine with feePool := some a } }
  | .eligibleCollateral => { r with engine := { r.engine with eligibleCollateral := some a } }
  | .pricefeed => { r with vamm := { r.vamm with pricefeed := some a } }

def isResolved (r : Record) (m : Module) : Bool :=
  (r.address m).isSome

/-- The modules whose slots are empty, in declaration order. -/
def unresolved (r : Record) : List Module :=
  Module.all.filter fun m => !r.isResolved m

/-- The slot as a value that can be checked: null when it is empty. -/
def slotJson (r : Record) (m : Module) : Json :=
  ((r.address m).map Json.str).getD .null

/-- The line about a slot whose address is replaced by another. -/
def replacing (m : Module) (old new : String) : Log.Line :=
  Log.line .warning ("Replacing " ++ m.path ++ ": " ++ old ++ " -> " ++ new)

/-- The lines that resolving a module to an address logs. -/
def resolveLines (r : Record) (m : Module) (a : String) : List Log.Line :=
  match r.address m with
  | some old => if old = a then [] else [replacing m old a]
  | none => []

/-- Fills the slot of a module, if the address is one. -/
def resolve (r : Record) (m : Module) (address : Json) : Logged Record :=
  match within m.path none (Check.address address m.path) with
  | .ok a => ⟨r.resolveLines m a, .ok (if r.address m = some a then r else r.setAddress m a)⟩
  | .error e => .fail e

/-- Fills the slot of the module that a value names. -/
def withAddress (r : Record) (module address : Json) : Logged Record := do
  let m ← Module.parse module
  r.resolve m address

theorem address_setAddress_self (r : Record) (m : Module) (a : String) :
    (r.setAddress m a).address m = some a := by
  cases m <;> rfl

theorem address_setAddress_of_ne (r : Record) {m n : Module} (a : String) (h : n ≠ m) :
    (r.setAddress m a).address n = r.address n := by
  cases m <;> cases n <;> first | rfl | exact absurd rfl h

theorem setAddress_setAddress_self (r : Record) (m : Module) (a b : String) :
    (r.setAddress m a).setAddress m b = r.setAddress m b := by
  cases m <;> rfl

/-- Putting back the address a slot holds changes nothing. -/
theorem setAddress_eq_self {r : Record} {m : Module} {a : String} (h : r.address m = some a) :
    r.setAddress m a = r := by
  obtain ⟨⟨_, _⟩, ⟨_, _, _, _, _, _, _⟩, ⟨_, _, _, _, _, _, _, _, _, _⟩, _⟩ := r
  cases m <;> simp_all [address, setAddress]

end PerpRollout.Record
