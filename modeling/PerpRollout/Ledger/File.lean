import PerpRollout.Json.Parser
import PerpRollout.Json.Printer
import PerpRollout.Ledger.Basic

/-!
# Ledger files

A ledger is kept in a file as one JSON value: an object with the rows of both
tables, or null when there are no tables.  Reading takes every ledger back from
what is written for it (`ofJson?_toJson`).
-/

namespace PerpRollout

def AddressRow.toJson (row : AddressRow) : Json :=
  .obj [("id", .int row.id), ("environment", .str row.environment),
    ("module", .str row.module.name), ("address", .str row.address)]

def SnapshotRow.toJson (row : SnapshotRow) : Json :=
  .obj [("id", .int row.id), ("environment", .str row.environment), ("payload", .str row.payload)]

def AddressRow.ofJson? : Json → Option AddressRow
  | .obj [("id", .int (.ofNat id)), ("environment", .str environment), ("module", .str name),
      ("address", .str address)] =>
    (Module.ofName? name).map fun module => ⟨id, environment, module, address⟩
  | _ => none

def SnapshotRow.ofJson? : Json → Option SnapshotRow
  | .obj [("id", .int (.ofNat id)), ("environment", .str environment),
      ("payload", .str payload)] => some ⟨id, environment, payload⟩
  | _ => none

namespace Ledger

def toJson (l : Ledger) : Json :=
  match l.tables? with
  | none => .null
  | some t => .obj [("addresses", .arr (t.addresses.map AddressRow.toJson)),
      ("snapshots", .arr (t.snapshots.map SnapshotRow.toJson))]

def ofJson? : Json → Option Ledger
  | .null => some {}
  | .obj [("addresses", .arr addresses), ("snapshots", .arr snapshots)] => do
    let addresses ← addresses.mapM AddressRow.ofJson?
    let snapshots ← snapshots.mapM SnapshotRow.ofJson?
    return ⟨some ⟨addresses, snapshots⟩⟩
  | _ => none

def fileText (l : Ledger) : String :=
  l.toJson.renderAll .line ++ "\n"

/-- The ledger of the text of a file, if it is one.  Its longest numeral is no
longer than the text. -/
def ofFileText? (text : String) : Option Ledger :=
  match Json.parse text.length text.toList with
  | .ok v => ofJson? v
  | .error _ => none

end Ledger

theorem AddressRow.ofJson?_toJson (row : AddressRow) : ofJson? row.toJson = some row := by
  change (Module.ofName? row.module.name).map _ = some row
  rw [Module.ofName?_name]
  rfl

theorem SnapshotRow.ofJson?_toJson (row : SnapshotRow) : ofJson? row.toJson = some row := rfl

theorem Ledger.ofJson?_toJson (l : Ledger) : ofJson? l.toJson = some l := by
  have addresses (rows : List AddressRow) :
      (rows.map AddressRow.toJson).mapM AddressRow.ofJson? = some rows := by
    induction rows with
    | nil => rfl
    | cons row rest ih => simp [AddressRow.ofJson?_toJson, ih]
  have snapshots (rows : List SnapshotRow) :
      (rows.map SnapshotRow.toJson).mapM SnapshotRow.ofJson? = some rows := by
    induction rows with
    | nil => rfl
    | cons row rest ih => simp [SnapshotRow.ofJson?_toJson, ih]
  obtain ⟨_ | ⟨as, ss⟩⟩ := l
  · rfl
  · simp only [toJson, ofJson?, addresses, snapshots]
    rfl

end PerpRollout
