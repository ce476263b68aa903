import PerpRollout.Proofs.Record.Slots
import PerpRollout.Registry.Basic

/-!
# The entries of a registry

How the two changes of a registry, a new entry and an entry put in place of
another, look through `find?` and through the order of the names, and what the
two operations do with them: `result_register_eq_ok_iff` and
`result_resolve_eq_ok_iff` say exactly when registering and resolving succeed
and what they give.
-/

namespace PerpRollout

/-- The record that is offered, if one is. -/
def Submission.record? : Submission → Option Record
  | .record r => some r
  | .edition e => some e.record
  | .other _ => none

namespace Registry

theorem mem_insertEntry {e x : Entry} {entries : List Entry} :
    x ∈ insertEntry e entries ↔ x = e ∨ x ∈ entries := by
  induction entries with
  | nil => simp [insertEntry]
  | cons y rest ih =>
      unfold insertEntry
      split
      · rw [List.mem_cons]
      · rw [List.mem_cons, ih, List.mem_cons]
        exact or_left_comm

/-- A new entry goes between the entries with smaller and with greater names. -/
theorem pairwise_insertEntry {e : Entry} {entries : List Entry}
    (sorted : entries.Pairwise (·.name < ·.name)) (fresh : ∀ x ∈ entries, x.name ≠ e.name) :
    (insertEntry e entries).Pairwise (·.name < ·.name) := by
  induction entries with
  | nil => exact List.pairwise_singleton _ e
  | cons y rest ih =>
      rw [List.pairwise_cons] at sorted
      obtain ⟨below, sorted⟩ := sorted
      unfold insertEntry
      split
      next h =>
        rw [List.pairwise_cons, List.pairwise_cons]
        refine ⟨?_, below, sorted⟩
        intro x hx
        rcases List.mem_cons.mp hx with rfl | hx
        · exact h
        · exact String.lt_trans h (below x hx)
      next h =>
        rw [List.pairwise_cons]
        refine ⟨?_, ih sorted fun x hx => fresh x (List.mem_cons_of_mem y hx)⟩
        intro x hx
        rcases mem_insertEntry.mp hx with rfl | hx
        · rcases String.le_total x.name y.name with hle | hle
          · exact absurd (String.le_antisymm hle h) (Ne.symm (fresh y (by simp)))
          · by_contra hlt
            exact fresh y (by simp) (String.le_antisymm hle hlt)
        · exact below x hx

theorem find?_insertEntry {e : Entry} {entries : List Entry}
    (fresh : ∀ x ∈ entries, x.name ≠ e.name) (name : String) :
    (insertEntry e entries).find? (fun x => x.name = name) =
      if e.name = name then some e else entries.find? fun x => x.name = name := by
  induction entries with
  | nil => by_cases hn : e.name = name <;> simp [insertEntry, hn]
  | cons y rest ih =>
      have hy : y.name ≠ e.name := fresh y (by simp)
      have hrest := ih fun x hx => fresh x (List.mem_cons_of_mem y hx)
      unfold insertEntry
      split
      · by_cases hn : e.name = name <;> simp [List.find?_cons, hn]
      · rw [List.find?_cons, hrest, List.find?_cons]
        by_cases hn : e.name = name
        · subst hn
          simp [hy]
        · simp [hn]

@[simp] theorem map_name_replaceEntry (e : Entry) (entries : List Entry) :
    (replaceEntry e entries).map Entry.name = entries.map Entry.name := by
  unfold replaceEntry
  rw [List.map_map]
  refine List.map_congr_left fun x _ => ?_
  by_cases h : x.name = e.name <;> simp [h]

theorem find?_replaceEntry (e : Entry) (entries : List Entry) (name : String) :
    (replaceEntry e entries).find? (fun x => x.name = name) =
      (entries.find? fun x => x.name = name).map fun x => if x.name = e.name then e else x := by
  unfold replaceEntry
  induction entries with
  | nil => rfl
  | cons y rest ih =>
      rw [List.map_cons, List.find?_cons, List.find?_cons, ih]
      by_cases hy : y.name = e.name <;> by_cases hn : y.name = name <;> simp_all

theorem find?_eq_none_iff {r : Registry} {name : String} :
    r.find? name = none ↔ ∀ x ∈ r.entries, x.name ≠ name := by
  simp [find?]

theorem name_of_find? {r : Registry} {name : String} {e : Entry} (h : r.find? name = some e) :
    e.name = name := by
  simpa using List.find?_some h

theorem mem_of_find? {r : Registry} {name : String} {e : Entry} (h : r.find? name = some e) :
    e ∈ r.entries :=
  List.mem_of_find?_eq_some h

theorem isSome_find?_iff {r : Registry} {name : String} :
    (r.find? name).isSome ↔ name ∈ r.names := by
  simp [find?, names]

theorem findJson?_eq_some_iff {r : Registry} {v : Json} {e : Entry} :
    r.findJson? v = some e ↔ ∃ name, v = .str name ∧ r.find? name = some e := by
  cases v <;> simp [findJson?]

theorem exists_findJson?_iff {r : Registry} {v : Json} :
    (∃ e, r.findJson? v = some e) ↔ ∃ name ∈ r.names, v = .str name := by
  simp only [findJson?_eq_some_iff, ← isSome_find?_iff, Option.isSome_iff_exists]
  constructor
  · intro h
    rcases h with ⟨e, name, hv, he⟩
    exact ⟨name, ⟨e, he⟩, hv⟩
  · intro h
    rcases h with ⟨name, ⟨e, he⟩, hv⟩
    exact ⟨e, name, hv, he⟩

theorem result_entry_eq_ok_iff {r : Registry} {v : Json} {e : Entry} :
    (r.entry v).result = .ok e ↔ r.findJson? v = some e := by
  unfold entry
  cases r.findJson? v <;> simp

theorem result_entry_eq_error {r : Registry} {v : Json} {e : Failure}
    (h : (r.entry v).result = .error e) :
    r.findJson? v = none ∧ e = .about v (.notFound · r.names) := by
  unfold entry at h
  cases hv : r.findJson? v with
  | some x =>
      rw [hv] at h
      cases h
  | none =>
      rw [hv] at h
      cases h
      exact ⟨rfl, rfl⟩

theorem result_get_eq_ok_iff {r : Registry} {v : Json} {edition : Edition} :
    (r.get v).result = .ok edition ↔ ∃ e, r.findJson? v = some e ∧ e.edition = edition := by
  unfold get
  simp only [Logged.result_bind_eq_ok_iff, result_entry_eq_ok_iff, Logged.result_pure,
    Except.ok.injEq]

theorem exists_result_get {r : Registry} {name : String} (h : name ∈ r.names) :
    ∃ edition, (r.get (.str name)).result = .ok edition := by
  obtain ⟨e, he⟩ := Option.isSome_iff_exists.mp (isSome_find?_iff.mpr h)
  exact ⟨e.edition, result_get_eq_ok_iff.mpr ⟨e, he, rfl⟩⟩

theorem result_history_eq_ok_iff {r : Registry} {v : Json} {history : List (Module × String)} :
    (r.history v).result = .ok history ↔ ∃ e, r.findJson? v = some e ∧ e.history = history := by
  unfold Registry.history
  simp only [Logged.result_bind_eq_ok_iff, result_entry_eq_ok_iff, Logged.result_pure,
    Except.ok.injEq]

theorem nameOf_eq_ok_iff {v : Json} {name : String} :
    nameOf v = .ok name ↔ v = .str name ∧ Text.blank name = false := by
  cases v with
  | str s =>
      unfold nameOf
      by_cases hs : Text.blank s = true
      · simp only [hs, if_true, Json.str.injEq]
        constructor
        · intro h
          cases h
        · intro h
          rcases h with ⟨rfl, h⟩
          rw [hs] at h
          cases h
      · simp only [hs, Json.str.injEq]
        constructor
        · intro h
          cases h
          exact ⟨rfl, by simpa using hs⟩
        · intro h
          rcases h with ⟨rfl, -⟩
          rfl
  | _ => simp [nameOf]

/-- What is refused as a name is no text, or a blank one. -/
theorem nameOf_eq_error {v : Json} {e : Failure} (h : nameOf v = .error e) :
    (∀ name, v = .str name → Text.blank name = true) ∧ e = .about v .badName := by
  unfold nameOf at h
  split at h
  next s =>
    split at h
    next hblank =>
      cases h
      refine ⟨?_, rfl⟩
      intro name hname
      cases hname
      exact hblank
    next => cases h
  next hnot =>
    cases h
    exact ⟨fun name hname => absurd hname (hnot name), rfl⟩

theorem accept_eq_error {issued : Nat} {offer : Submission} {e : Failure}
    (h : accept issued offer = .error e) : ∃ v, offer = .other v ∧ e = .notARecord v.kind := by
  cases offer with
  | other v =>
      cases h
      exact ⟨v, rfl, rfl⟩
  | record r => cases h
  | edition x => cases h

theorem record?_of_accept {issued issued' : Nat} {offer : Submission} {edition : Edition}
    (h : accept issued offer = .ok (edition, issued')) : offer.record? = some edition.record := by
  cases offer <;> cases h <;> rfl

/-- Registering succeeds exactly with a record, under a name that is not blank
and is not taken, and adds an entry without a history. -/
theorem result_register_eq_ok_iff {r r' : Registry} {v : Json} {offer : Submission} :
    (r.register v offer).result = .ok r' ↔
      ∃ name edition issued, v = .str name ∧ Text.blank name = false ∧ r.find? name = none ∧
        accept r.issued offer = .ok (edition, issued) ∧
        r' = ⟨insertEntry ⟨name, edition, []⟩ r.entries, issued⟩ := by
  unfold register
  simp only [Logged.result_bind_eq_ok_iff, Logged.result_liftM, nameOf_eq_ok_iff]
  constructor
  · intro h
    rcases h with ⟨name, ⟨hv, hblank⟩, h⟩
    cases hfind : r.find? name with
    | some e =>
        rw [hfind] at h
        cases h
    | none =>
        simp only [hfind, Option.isSome_none, Bool.false_eq_true, if_false,
          Logged.result_bind_eq_ok_iff, Logged.result_liftM] at h
        obtain ⟨⟨edition, issued⟩, hoffer, _, -, h⟩ := h
        cases h
        exact ⟨name, edition, issued, hv, hblank, hfind, hoffer, rfl⟩
  · intro h
    rcases h with ⟨name, edition, issued, hv, hblank, hfind, hoffer, rfl⟩
    refine ⟨name, ⟨hv, hblank⟩, ?_⟩
    simp only [hfind, Option.isSome_none, Bool.false_eq_true, if_false,
      Logged.result_bind_eq_ok_iff, Logged.result_liftM]
    exact ⟨(edition, issued), hoffer, (), rfl, rfl⟩

theorem result_tag_eq_ok_iff {α : Type} {name : String} {x : Logged α} {a : α} :
    (tag name x).result = .ok a ↔ x.result = .ok a := by
  unfold tag
  split
  next h => simp [h]
  next => rfl

/-- What is refused is not an address, and is told with the slot of the module, in
the record of the environment. -/
theorem result_tag_resolve_eq_error {name : String} {record : Record} {m : Module} {v : Json}
    {e : Failure} (h : (tag name (record.resolve m v)).result = .error e) :
    (∀ a, v = .str a → ¬ IsAddress a) ∧
      ∃ fault, e = .invalid ⟨m.path, some name, .fault fault⟩ := by
  unfold tag at h
  split at h
  next i hi =>
    cases h
    obtain ⟨hnot, fault, hfault⟩ := Record.result_resolve_eq_error hi
    cases hfault
    exact ⟨hnot, fault, rfl⟩
  next hno =>
    obtain ⟨-, fault, hfault⟩ := Record.result_resolve_eq_error h
    rw [hfault] at h
    exact absurd h (hno _)

/-- Resolving succeeds exactly for an environment there is, a module and an
address, and puts an entry with the slot set in place of the old one. -/
theorem result_resolve_eq_ok_iff {r r' : Registry} {v module address : Json} {new : Record} :
    (r.resolve v module address).result = .ok (new, r') ↔
      ∃ name e m a, v = .str name ∧ r.find? name = some e ∧ Module.parse module = .ok m ∧
        address = .str a ∧ IsAddress a ∧ new = e.edition.record.setAddress m a ∧
        r' = ⟨replaceEntry (Entry.resolved e r.issued new m a) r.entries, r.issued + 1⟩ := by
  unfold resolve
  simp only [Logged.result_bind_eq_ok_iff, Logged.result_liftM, result_entry_eq_ok_iff,
    findJson?_eq_some_iff, result_tag_eq_ok_iff, Record.result_resolve_eq_ok_iff]
  constructor
  · intro h
    rcases h with ⟨e, ⟨name, hv, he⟩, m, hm, _, ⟨a, ha, hok, rfl⟩, _, -, h⟩
    subst ha
    cases h
    exact ⟨name, e, m, a, hv, he, hm, rfl, hok, rfl, rfl⟩
  · intro h
    rcases h with ⟨name, e, m, a, hv, he, hm, rfl, hok, rfl, rfl⟩
    exact ⟨e, ⟨name, hv, he⟩, m, hm, _, ⟨a, rfl, hok, rfl⟩, (), rfl, rfl⟩

end Registry

end PerpRollout
