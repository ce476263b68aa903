import PerpRollout.Record.Address

/-!
# Ledger tables

A ledger holds two tables.  One has a row for each address that was recorded,
the other one for each snapshot of a record that was saved.  Rows are only ever
added, and numbered from one over all environments.
-/

namespace PerpRollout

structure AddressRow where
  id : Nat
  environment : String
  module : Module
  address : String
  deriving DecidableEq, Repr

/-- A saved record, as text. -/
structure SnapshotRow where
  id : Nat
  environment : String
  payload : String
  deriving DecidableEq, Repr

/-- The two tables, each with its rows by number. -/
structure Ledger.Tables where
  addresses : List AddressRow := []
  snapshots : List SnapshotRow := []
  deriving DecidableEq, Repr

/-- A ledger; without tables before they are created and after they are dropped. -/
structure Ledger where
  tables? : Option Ledger.Tables := none
  deriving DecidableEq, Repr

namespace Ledger

/-- The number of the next row, one above the largest. -/
def nextId (ids : List Nat) : Nat :=
  ids.foldl max 0 + 1

namespace Tables

def record (t : Tables) (environment : String) (m : Module) (address : String) : Nat × Tables :=
  let id := nextId (t.addresses.map AddressRow.id)
  (id, { t with addresses := t.addresses ++ [⟨id, environment, m, address⟩] })

def save (t : Tables) (environment payload : String) : Nat × Tables :=
  let id := nextId (t.snapshots.map SnapshotRow.id)
  (id, { t with snapshots := t.snapshots ++ [⟨id, environment, payload⟩] })

/-- The addresses recorded for an environment, oldest first. -/
def history (t : Tables) (environment : String) : List (Module × String) :=
  (t.addresses.filter fun row => row.environment = environment).map fun row =>
    (row.module, row.address)

/-- The snapshots of an environment, oldest first. -/
def snapshotsOf (t : Tables) (environment : String) : List SnapshotRow :=
  t.snapshots.filter fun row => row.environment = environment

end Tables

/-- Sets the address of a module: in its old place when it has one, else at the end. -/
def setLatest (m : Module) (address : String) : List (Module × String) → List (Module × String)
  | [] => [(m, address)]
  | (m', a) :: rest =>
    if m' = m then (m, address) :: rest else (m', a) :: setLatest m address rest

theorem lookup_setLatest_self (m : Module) (a : String) (history : List (Module × String)) :
    (setLatest m a history).lookup m = some a := by
  induction history with
  | nil => simp [setLatest]
  | cons x rest ih =>
    obtain ⟨m', b⟩ := x
    by_cases h : m' = m
    · simp [setLatest, h]
    · have h' : (m == m') = false := by simpa using fun e => h e.symm
      simp [setLatest, h, List.lookup_cons, h', ih]

theorem lookup_setLatest_of_ne {m n : Module} (h : n ≠ m) (a : String)
    (history : List (Module × String)) :
    (setLatest m a history).lookup n = history.lookup n := by
  have h' : (n == m) = false := by simpa using h
  induction history with
  | nil => simp [setLatest, List.lookup_cons, h']
  | cons x rest ih =>
    obtain ⟨m', b⟩ := x
    by_cases hm : m' = m
    · subst hm
      simp [setLatest, List.lookup_cons, h']
    · simp only [setLatest, if_neg hm, List.lookup_cons]
      split
      · rfl
      · exact ih

/-- The last address of each module in a history, in the order the modules first
occur. -/
def latest (history : List (Module × String)) : List (Module × String) :=
  history.foldl (fun acc (m, a) => setLatest m a acc) []

end Ledger

end PerpRollout
