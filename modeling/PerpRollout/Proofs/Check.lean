import Mathlib.Tactic.ByContra
import PerpRollout.Record.Schema

/-!
# What the checks of single values accept

An address is a text that is not empty and has no blank in it (`IsAddress`); an
object passes when it has all required keys and none beyond those allowed. What
either check refuses is a fault that can be told (`address_eq_error`,
`object_eq_error`), never an integer too long to be shown.
-/

namespace PerpRollout

/-- A text that a slot takes: not empty, and without a blank in it. -/
def IsAddress (a : String) : Prop :=
  a ≠ "" ∧ Text.hasBlank a = false

instance (a : String) : Decidable (IsAddress a) :=
  inferInstanceAs (Decidable (a ≠ "" ∧ Text.hasBlank a = false))

theorem isAddress_iff (a : String) :
    IsAddress a ↔ Text.blank a = false ∧ Text.hasBlank a = false := by
  unfold IsAddress Text.blank Text.hasBlank
  refine and_congr_left fun h => ?_
  rw [List.any_eq_false] at h
  cases hcs : a.toList with
  | nil => simp [String.toList_eq_nil_iff.mp hcs]
  | cons c cs =>
      have hc : Text.isBlank c = false := by simpa using h c (by simp [hcs])
      have ha : a ≠ "" := by
        intro h
        subst h
        cases hcs
      simp [hc, ha]

theorem within_eq_ok_iff {α : Type} {field : String} {environment : Option String}
    {x : Except Failure α} {a : α} : within field environment x = .ok a ↔ x = .ok a := by
  unfold within
  split
  · simp
  · rfl

namespace Check

theorem address_str (s name : String) :
    address (.str s) name =
      if Text.blank s then refuse (.empty name)
      else if Text.hasBlank s then refuse (.blankInside name s) else .ok s := by
  by_cases hs : Text.blank s = true
  · simp [address, text, hs, refuse, bind, Except.bind]
  · simp [address, text, hs, bind, Except.bind, pure, Except.pure]

/-- The check of an address passes exactly on an address. -/
theorem address_eq_ok_iff {v : Json} {name a : String} :
    address v name = .ok a ↔ v = .str a ∧ IsAddress a := by
  rw [isAddress_iff]
  cases v with
  | str s =>
      rw [address_str, Json.str.injEq]
      split
      next hs =>
        constructor
        · intro h
          cases h
        · intro h
          rcases h with ⟨rfl, hblank, -⟩
          rw [hs] at hblank
          cases hblank
      next hs =>
        split
        next hin =>
          constructor
          · intro h
            cases h
          · intro h
            rcases h with ⟨rfl, -, hno⟩
            rw [hin] at hno
            cases hno
        next hin =>
          constructor
          · intro h
            cases h
            exact ⟨rfl, by simpa using hs, by simpa using hin⟩
          · intro h
            rcases h with ⟨rfl, -, -⟩
            rfl
  | _ =>
      constructor
      · intro h
        cases h
      · intro h
        rcases h with ⟨h, -⟩
        cases h

/-- What is wrong with an address can always be told. -/
theorem address_eq_error {v : Json} {name : String} {e : Failure}
    (h : address v name = .error e) : ∃ fault, e = .fault fault := by
  cases v with
  | str s =>
      rw [address_str] at h
      split at h
      · cases h
        exact ⟨_, rfl⟩
      · split at h
        · cases h
          exact ⟨_, rfl⟩
        · cases h
  | _ =>
      cases h
      exact ⟨_, rfl⟩

/-- What is refused as an address is none, and is told with the field it was meant for. -/
theorem within_address_eq_error {v : Json} {field name : String} {environment : Option String}
    {e : Failure} (h : within field environment (address v name) = .error e) :
    (∀ a, v = .str a → ¬ IsAddress a) ∧
      ∃ fault, e = .invalid ⟨field, environment, .fault fault⟩ := by
  cases hv : address v name with
  | ok a =>
      rw [hv] at h
      cases h
  | error f =>
      have hnot : ∀ a, v = .str a → ¬ IsAddress a := by
        intro a hstr ha
        rw [address_eq_ok_iff.mpr ⟨hstr, ha⟩] at hv
        cases hv
      obtain ⟨fault, rfl⟩ := address_eq_error hv
      rw [hv] at h
      cases h
      exact ⟨hnot, fault, rfl⟩

theorem distinctNames_eq_nil_iff (names : List String) :
    Text.distinctNames names = [] ↔ names = [] := by
  unfold Text.distinctNames Text.sortNames
  rw [← List.length_eq_zero_iff, List.length_mergeSort, List.length_eq_zero_iff]
  cases names with
  | nil => simp
  | cons n names => simp [List.eraseDups_cons]

/-- The keys an object lacks, as a message lists them. -/
def missingKeys (required : List String) (members : List (String × Json)) : List String :=
  Text.distinctNames (required.filter (!(Json.keys members).contains ·))

/-- The keys an object may not have, as a message lists them. -/
def unknownKeys (allowed : Option (List String)) (members : List (String × Json)) : List String :=
  match allowed with
  | none => []
  | some names => Text.distinctNames ((Json.keys members).filter (!names.contains ·))

theorem missingKeys_eq_nil_iff {required : List String} {members : List (String × Json)} :
    missingKeys required members = [] ↔ ∀ k ∈ required, k ∈ Json.keys members := by
  rw [missingKeys, distinctNames_eq_nil_iff, List.filter_eq_nil_iff]
  simp

theorem unknownKeys_eq_nil_iff {allowed : Option (List String)}
    {members : List (String × Json)} :
    unknownKeys allowed members = [] ↔ ∀ names ∈ allowed, ∀ k ∈ Json.keys members, k ∈ names := by
  cases allowed with
  | none => simp [unknownKeys]
  | some names =>
      rw [unknownKeys, distinctNames_eq_nil_iff, List.filter_eq_nil_iff]
      simp

theorem object_obj (members : List (String × Json)) (required : List String)
    (allowed : Option (List String)) (name : String) :
    object (.obj members) required allowed name =
      if !(missingKeys required members).isEmpty then
        refuse (.missingKeys name (missingKeys required members))
      else if !(unknownKeys allowed members).isEmpty then
        refuse (.unknownKeys name (unknownKeys allowed members))
      else .ok members := by
  cases allowed <;> rfl

/-- The check of an object passes when all required keys are there and no others
than those allowed. -/
theorem object_eq_ok_iff {v : Json} {required : List String} {allowed : Option (List String)}
    {name : String} {members : List (String × Json)} :
    object v required allowed name = .ok members ↔
      v = .obj members ∧ (∀ k ∈ required, k ∈ Json.keys members) ∧
        ∀ names ∈ allowed, ∀ k ∈ Json.keys members, k ∈ names := by
  cases v with
  | obj ms =>
      rw [object_obj, Json.obj.injEq]
      split
      next hmissing =>
        constructor
        · intro h
          cases h
        · intro h
          rcases h with ⟨rfl, hnone, -⟩
          rw [missingKeys_eq_nil_iff.mpr hnone] at hmissing
          cases hmissing
      next hmissing =>
        split
        next hunknown =>
          constructor
          · intro h
            cases h
          · intro h
            rcases h with ⟨rfl, -, hnone⟩
            rw [unknownKeys_eq_nil_iff.mpr hnone] at hunknown
            cases hunknown
        next hunknown =>
          constructor
          · intro h
            cases h
            exact ⟨rfl, missingKeys_eq_nil_iff.mp (by simpa using hmissing),
              unknownKeys_eq_nil_iff.mp (by simpa using hunknown)⟩
          · intro h
            rw [h.1]
  | _ =>
      constructor
      · intro h
        cases h
      · intro h
        cases h.1

/-- What is wrong with an object can always be told. -/
theorem object_eq_error {v : Json} {required : List String} {allowed : Option (List String)}
    {name : String} {e : Failure} (h : object v required allowed name = .error e) :
    ∃ fault, e = .fault fault := by
  cases v with
  | obj members =>
      rw [object_obj] at h
      split at h
      · cases h
        exact ⟨_, rfl⟩
      · split at h
        · cases h
          exact ⟨_, rfl⟩
        · cases h
  | _ =>
      cases h
      exact ⟨_, rfl⟩

end Check

end PerpRollout
