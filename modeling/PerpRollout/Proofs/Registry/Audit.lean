import Mathlib.Data.List.Destutter
import PerpRollout.Proofs.Registry.Interleaving

/-!
# What a run leaves behind

A run of registry calls leaves three traces of the addresses of an environment: the values
that its slots go through, its history, and the log. They tell the same (`run_audit`). The
values of a slot, a repeated one counted once, are the first one and the addresses in the
history; a warning is logged by exactly those calls that put another address in place of one,
and a line for each resolution that succeeds.

What one call does to an entry is that it stays or that one address is resolved
(`find?_after_cases`); the values over a run are followed through it call by call.
-/

namespace PerpRollout

namespace Log

/-- The lines of one level. -/
def ofLevel (level : Level) (lines : List Line) : List Line :=
  lines.filter fun l => l.level = level

theorem ofLevel_eq_nil {level other : Level} {lines : List Line} (hne : level ≠ other)
    (h : ∀ l ∈ lines, l.level = level) : ofLevel other lines = [] := by
  rw [ofLevel, List.filter_eq_nil_iff]
  intro l hl
  simpa [h l hl] using hne

end Log

namespace Record

/-- What resolving a slot to an address logs and gives. -/
theorem resolve_of_isAddress (r : Record) (m : Module) {a : String} (ha : IsAddress a) :
    (r.resolve m (.str a)).lines = r.resolveLines m a ∧
      (r.resolve m (.str a)).result = .ok (r.setAddress m a) := by
  have hcheck : within m.path none (Check.address (.str a) m.path) = .ok a :=
    within_eq_ok_iff.mpr (Check.address_eq_ok_iff.mpr ⟨rfl, ha⟩)
  constructor
  · rw [resolve, hcheck]
  · exact result_resolve_eq_ok_iff.mpr ⟨a, rfl, ha, rfl⟩

theorem isAddress_of_mem_lines {r : Record} {m : Module} {v : Json} {l : Log.Line}
    (h : l ∈ (r.resolve m v).lines) : ∃ a, v = .str a ∧ IsAddress a := by
  unfold resolve at h
  split at h
  next a hcheck => exact ⟨a, Check.address_eq_ok_iff.mp (within_eq_ok_iff.mp hcheck)⟩
  next => cases h

end Record

/-! ## Sequences without repetitions -/

section Destutter

variable {α : Type} [DecidableEq α]

theorem destutter_cons_self (a : α) (items : List α) :
    (a :: a :: items).destutter (· ≠ ·) = (a :: items).destutter (· ≠ ·) := by
  rw [List.destutter_cons', List.destutter_cons', List.destutter'_cons_neg _ (by simp)]

/-- What comes first counts only by how it compares with what is next. -/
theorem destutter_cons_congr {b : α} {items items' : List α} (a : α)
    (h : (b :: items).destutter (· ≠ ·) = (b :: items').destutter (· ≠ ·)) :
    (a :: b :: items).destutter (· ≠ ·) = (a :: b :: items').destutter (· ≠ ·) := by
  by_cases hab : a = b
  · rw [hab, destutter_cons_self, destutter_cons_self, h]
  · rw [List.destutter_cons', List.destutter_cons', List.destutter'_cons_pos _ hab,
      List.destutter'_cons_pos _ hab, ← List.destutter_cons', ← List.destutter_cons', h]

end Destutter

namespace Registry

variable {r r' : Registry} {name : String} {m : Module} {e : Entry} {call : Call}

theorem visible_run (visible : ∀ name ∈ r.names, Text.blank name = false) (calls : List Call) :
    ∀ name ∈ (r.run calls).names, Text.blank name = false := by
  induction calls generalizing r with
  | nil => exact visible
  | cons call calls ih =>
      rw [run_cons]
      cases h : r.attempt call with
      | error failure =>
          rw [after_of_error h]
          exact ih visible
      | ok r' =>
          rw [after_of_ok h]
          exact ih (visible_attempt visible h)

/-! ## The values of a slot -/

/-- What the slot of a module holds in the record of an environment, if there is a record. -/
def slot? (r : Registry) (name : String) (m : Module) : Option (Option String) :=
  (r.get (.str name)).result.toOption.map fun edition => edition.record.address m

/-- The registries over a run: the first one, and the one after each call. -/
def states (r : Registry) (calls : List Call) : List Registry :=
  calls.scanl after r

/-- The values over a run of the slot of a module in the record of an environment, as far as
there is a record. -/
def slots (r : Registry) (calls : List Call) (name : String) (m : Module) :
    List (Option String) :=
  (r.states calls).filterMap fun s => s.slot? name m

/-- The addresses of one module in a history. -/
def addressesOf (m : Module) (history : List (Module × String)) : List (Option String) :=
  (history.filter (·.1 = m)).map fun step => some step.2

theorem addressesOf_cons_self (m : Module) (a : String) (history : List (Module × String)) :
    addressesOf m ((m, a) :: history) = some a :: addressesOf m history := by
  simp [addressesOf]

theorem addressesOf_cons_of_ne {n : Module} (h : n ≠ m) (a : String)
    (history : List (Module × String)) :
    addressesOf m ((n, a) :: history) = addressesOf m history := by
  simp [addressesOf, h]

theorem slot?_eq (r : Registry) (name : String) (m : Module) :
    r.slot? name m = (r.find? name).map fun e => e.edition.record.address m := by
  rw [slot?, get, Logged.result_bind, entry, findJson?]
  cases r.find? name <;> rfl

theorem slots_nil (r : Registry) (name : String) (m : Module) :
    r.slots [] name m = (r.slot? name m).toList := by
  rw [slots, states, List.scanl_nil, List.filterMap_cons]
  cases r.slot? name m <;> rfl

theorem slots_cons (r : Registry) (call : Call) (calls : List Call) (name : String) (m : Module) :
    r.slots (call :: calls) name m =
      (r.slot? name m).toList ++ (r.after call).slots calls name m := by
  rw [slots, states, List.scanl_cons, List.filterMap_cons]
  cases r.slot? name m <;> rfl

theorem exists_slots_eq_cons (h : r.find? name = some e) (calls : List Call) (m : Module) :
    ∃ rest, r.slots calls name m = e.edition.record.address m :: rest := by
  have hslot : r.slot? name m = some (e.edition.record.address m) := by
    rw [slot?_eq, h, Option.map_some]
  cases calls with
  | nil =>
      rw [slots_nil, hslot]
      exact ⟨_, rfl⟩
  | cons call calls =>
      rw [slots_cons, hslot]
      exact ⟨_, rfl⟩

/-- A call leaves the entry of an environment as it is, or resolves one address in it. -/
theorem find?_after_cases (h : r.find? name = some e) (call : Call) :
    (r.after call).find? name = some e ∨ ∃ n a, (r.after call).find? name =
      some (Entry.resolved e r.issued (e.edition.record.setAddress n a) n a) := by
  cases hcall : r.attempt call with
  | error failure =>
      rw [after_of_error hcall]
      exact .inl h
  | ok r' =>
      rw [after_of_ok hcall]
      by_cases henv : call.environment = .str name
      · cases call with
        | register v offer =>
            cases henv
            cases h.symm.trans (find?_attempt_register hcall).1
        | resolve v module address =>
            cases henv
            obtain ⟨e', n, a, he', -, -, -, hnew⟩ := find?_attempt_resolve hcall
            cases h.symm.trans he'
            exact .inr ⟨n, a, hnew⟩
      · exact .inl ((find?_attempt_of_ne hcall henv).trans h)

/-- Over a run a history is added to, and the values of a slot are the first one and the
addresses that are added. -/
theorem exists_added_of_find? (h : r.find? name = some e) (calls : List Call) :
    ∃ e' added, (r.run calls).find? name = some e' ∧ e'.history = e.history ++ added ∧
      ∀ m, (r.slots calls name m).destutter (· ≠ ·) =
        (e.edition.record.address m :: addressesOf m added).destutter (· ≠ ·) := by
  induction calls generalizing r e with
  | nil =>
      refine ⟨e, [], h, (List.append_nil _).symm, fun m => ?_⟩
      rw [slots_nil, slot?_eq, h]
      rfl
  | cons call calls ih =>
      have hslots (m : Module) : r.slots (call :: calls) name m =
          e.edition.record.address m :: (r.after call).slots calls name m := by
        rw [slots_cons, slot?_eq, h]
        rfl
      rw [run_cons]
      rcases find?_after_cases h call with hsame | ⟨n, a, hnew⟩
      · obtain ⟨e', added, he', hhistory, hvalues⟩ := ih hsame
        refine ⟨e', added, he', hhistory, fun m => ?_⟩
        obtain ⟨rest, hrest⟩ := exists_slots_eq_cons hsame calls m
        rw [hslots, hrest, destutter_cons_self, ← hrest]
        exact hvalues m
      · obtain ⟨e', added, he', hhistory, hvalues⟩ := ih hnew
        refine ⟨e', (n, a) :: added, he', ?_, fun m => ?_⟩
        · rw [hhistory, Entry.resolved, List.append_assoc, List.singleton_append]
        · obtain ⟨rest, hrest⟩ := exists_slots_eq_cons hnew calls m
          have hafter := hvalues m
          rw [hrest, record_resolved] at hafter
          rw [hslots, hrest, record_resolved]
          by_cases hn : n = m
          · subst hn
            rw [Record.address_setAddress_self] at hafter ⊢
            rw [addressesOf_cons_self]
            exact destutter_cons_congr _ hafter
          · rw [Record.address_setAddress_of_ne _ a (Ne.symm hn)] at hafter ⊢
            rw [addressesOf_cons_of_ne hn, destutter_cons_self]
            exact hafter

/-- A name that is taken is not registered again. -/
theorem not_registered_of_find? (h : r.find? name = some e) (calls : List Call) (c : Record) :
    (name, c) ∉ (r.accepted calls).filterMap Call.registration? := by
  induction calls generalizing r e with
  | nil => simp [accepted]
  | cons call calls ih =>
      have hnext : ∃ e', (r.after call).find? name = some e' := by
        rcases find?_after_cases h call with hsame | ⟨n, a, hnew⟩
        · exact ⟨_, hsame⟩
        · exact ⟨_, hnew⟩
      obtain ⟨e', he'⟩ := hnext
      cases hcall : r.attempt call with
      | error failure =>
          rw [accepted_cons_of_error hcall]
          exact ih h
      | ok r' =>
          rw [after_of_ok hcall] at he'
          rw [accepted_cons_of_ok hcall, List.mem_filterMap]
          rintro ⟨other, hother, hregistration⟩
          rcases List.mem_cons.mp hother with rfl | hother
          · obtain ⟨offer, rfl, -⟩ := Call.registration?_eq_some_iff.mp hregistration
            cases h.symm.trans (find?_attempt_register hcall).1
          · exact ih he' (List.mem_filterMap.mpr ⟨other, hother, hregistration⟩)

/-- When a run registers a record, the environment's history is what is resolved since, and the
values of a slot are the one in the record and the addresses in the history. -/
theorem exists_history_of_registered {calls : List Call} {c : Record}
    (h : (name, c) ∈ (r.accepted calls).filterMap Call.registration?) :
    ∃ e', (r.run calls).find? name = some e' ∧
      ∀ m, (r.slots calls name m).destutter (· ≠ ·) =
        (c.address m :: addressesOf m e'.history).destutter (· ≠ ·) := by
  induction calls generalizing r with
  | nil => simp [accepted] at h
  | cons call calls ih =>
      have hnone : r.find? name = none := by
        cases hfind : r.find? name with
        | none => rfl
        | some e => exact absurd h (not_registered_of_find? hfind _ c)
      have hslots (m : Module) : r.slots (call :: calls) name m =
          (r.after call).slots calls name m := by
        rw [slots_cons, slot?_eq, hnone]
        rfl
      simp only [hslots, run_cons]
      cases hcall : r.attempt call with
      | error failure =>
          rw [accepted_cons_of_error hcall] at h
          rw [after_of_error hcall]
          exact ih h
      | ok r' =>
          rw [accepted_cons_of_ok hcall] at h
          rw [after_of_ok hcall]
          obtain ⟨other, hother, hregistration⟩ := List.mem_filterMap.mp h
          rcases List.mem_cons.mp hother with rfl | hother
          · obtain ⟨offer, rfl, hoffer⟩ := Call.registration?_eq_some_iff.mp hregistration
            obtain ⟨-, edition, hedition, hnew⟩ := find?_attempt_register hcall
            cases hoffer.symm.trans hedition
            obtain ⟨e', added, he', hhistory, hvalues⟩ := exists_added_of_find? hnew calls
            rw [List.nil_append] at hhistory
            exact ⟨e', he', fun m => hhistory ▸ hvalues m⟩
          · exact ih (List.mem_filterMap.mpr ⟨other, hother, hregistration⟩)

/-! ## The lines of a call -/

/-- The lines that a call logs. -/
def logged (r : Registry) : Call → List Log.Line
  | .register environment offer => (r.register environment offer).lines
  | .resolve environment module address => (r.resolve environment module address).lines

theorem lines_entry (h : r.find? name = some e) :
    (r.entry (.str name)).lines = [Log.line .debug ("Loaded deployment config for " ++ name)] := by
  rw [entry, findJson?, h]
  simp only [name_of_find? h]

theorem lines_tag {α : Type} (environment : String) (x : Logged α) :
    (tag environment x).lines = x.lines := by
  unfold tag
  split <;> rfl

/-- A resolution that succeeds tells of the record it goes by, of the address it replaces and
of the one it puts there. -/
theorem logged_resolve {module : Json} {a : String} (he : r.find? name = some e)
    (hm : Module.parse module = .ok m) (ha : IsAddress a) :
    r.logged (.resolve (.str name) module (.str a)) =
      Log.line .debug ("Loaded deployment config for " ++ name) ::
        (e.edition.record.resolveLines m a ++
          [Log.bound name .info ("Resolved " ++ m.name ++ " -> " ++ a)]) := by
  obtain ⟨hlines, hresult⟩ := Record.resolve_of_isAddress e.edition.record m ha
  have hentry : (r.entry (.str name)).result = .ok e :=
    result_entry_eq_ok_iff.mpr (findJson?_eq_some_iff.mpr ⟨name, rfl, he⟩)
  have hmodule : (liftM (Module.parse module) : Logged Module).result = .ok m :=
    (Logged.result_liftM _).trans hm
  have htag : (tag e.name (e.edition.record.resolve m (.str a))).result =
      .ok (e.edition.record.setAddress m a) := result_tag_eq_ok_iff.mpr hresult
  change (r.resolve (.str name) module (.str a)).lines = _
  rw [resolve, Logged.lines_bind_of_ok hentry, Logged.lines_bind_of_ok hmodule,
    Logged.lines_bind_of_ok htag, lines_entry he, lines_tag, hlines, name_of_find? he]
  rfl

theorem debug_of_mem_entry {v : Json} {l : Log.Line} (h : l ∈ (r.entry v).lines) :
    l.level = .debug := by
  unfold entry at h
  split at h
  · rw [List.mem_singleton.mp h]
    rfl
  · cases h

theorem debug_of_mem_register {v : Json} {offer : Submission} {l : Log.Line}
    (h : l ∈ (r.register v offer).lines) : l.level = .debug := by
  unfold register at h
  simp only [Logged.mem_lines_bind, Logged.lines_liftM, List.not_mem_nil, false_or] at h
  obtain ⟨n, -, h⟩ := h
  split at h
  · cases h
  · simp only [Logged.mem_lines_bind, Logged.lines_liftM, List.not_mem_nil, false_or] at h
    obtain ⟨x, -, h | ⟨_, -, h⟩⟩ := h
    · rw [List.mem_singleton.mp h]
      rfl
    · cases h

/-- A resolution that fails has told of the record at most. -/
theorem debug_of_mem_resolve {v module address : Json}
    (hfails : ∀ new r', (r.resolve v module address).result ≠ .ok (new, r')) {l : Log.Line}
    (h : l ∈ (r.resolve v module address).lines) : l.level = .debug := by
  unfold resolve at h
  simp only [Logged.mem_lines_bind, Logged.lines_liftM, List.not_mem_nil, false_or,
    Logged.result_liftM, lines_tag] at h
  obtain h | ⟨e, he, m, hm, h⟩ := h
  · exact debug_of_mem_entry h
  · obtain ⟨n, rfl, hn⟩ := findJson?_eq_some_iff.mp (result_entry_eq_ok_iff.mp he)
    -- An address would have been resolved.
    have hno (a : String) (haddress : address = .str a) : ¬IsAddress a := fun ha =>
      hfails _ _ (result_resolve_eq_ok_iff.mpr ⟨n, e, m, a, rfl, hn, hm, haddress, ha, rfl, rfl⟩)
    obtain h | ⟨new, hnew, -⟩ := h
    · obtain ⟨a, haddress, ha⟩ := Record.isAddress_of_mem_lines h
      exact absurd ha (hno a haddress)
    · obtain ⟨a, haddress, ha, -⟩ :=
        Record.result_resolve_eq_ok_iff.mp (result_tag_eq_ok_iff.mp hnew)
      exact absurd ha (hno a haddress)

/-! ## What a call changes and what it tells -/

/-- The call resolves a module of an environment to an address, which its slot then holds in
place of what it held before. -/
structure Fills (r : Registry) (call : Call) (r' : Registry) (name : String) (m : Module)
    (held : Option String) (a : String) : Prop where
  asks : ∃ module, call = .resolve (.str name) module (.str a) ∧ Module.parse module = .ok m
  result : r.attempt call = .ok r'
  held : r.slot? name m = some held
  holds : r'.slot? name m = some (some a)

/-- The calls that fill slots are the resolutions that succeed. -/
theorem exists_fills {v module address : Json}
    (h : r.attempt (.resolve v module address) = .ok r') :
    ∃ name m held a, r.Fills (.resolve v module address) r' name m held a := by
  rcases attempt_cases h with ⟨_, _, _, _, hcall, -⟩ | ⟨n, module', a, e, m, hcall, he, hm, -, -⟩
  · cases hcall
  · cases hcall
    obtain ⟨e', m', a', he', hm', ha', -, hnew⟩ := find?_attempt_resolve h
    cases he.symm.trans he'
    cases hm.symm.trans hm'
    cases ha'
    refine ⟨n, m, e.edition.record.address m, a, ⟨module, rfl, hm⟩, h, ?_, ?_⟩
    · rw [slot?_eq, he, Option.map_some]
    · rw [slot?_eq, hnew, Option.map_some, record_resolved, Record.address_setAddress_self]

theorem Fills.find? {held : Option String} {a : String} (h : r.Fills call r' name m held a) :
    ∃ e, r.find? name = some e ∧ e.edition.record.address m = held ∧ IsAddress a := by
  obtain ⟨module, rfl, hm⟩ := h.asks
  obtain ⟨e, m', a', he, hm', ha', haddress, -⟩ := find?_attempt_resolve h.result
  cases hm.symm.trans hm'
  cases ha'
  have hheld := h.held
  rw [slot?_eq, he, Option.map_some, Option.some.injEq] at hheld
  exact ⟨e, he, hheld, haddress⟩

theorem Fills.logged {held : Option String} {a : String} (h : r.Fills call r' name m held a) :
    ∃ e, r.find? name = some e ∧ e.edition.record.address m = held ∧
      r.logged call = Log.line .debug ("Loaded deployment config for " ++ name) ::
        (e.edition.record.resolveLines m a ++
          [Log.bound name .info ("Resolved " ++ m.name ++ " -> " ++ a)]) := by
  obtain ⟨e, he, hheld, ha⟩ := h.find?
  obtain ⟨module, rfl, hm⟩ := h.asks
  exact ⟨e, he, hheld, logged_resolve he hm ha⟩

theorem bound_of_visible (h : Text.blank name = false) (level : Log.Level) (message : String) :
    Log.bound name level message = ⟨level, some name, message⟩ := by
  have hname : name.isEmpty = false := by
    rw [Bool.eq_false_iff, Ne, String.isEmpty_iff]
    rintro rfl
    rw [Text.blank_empty] at h
    cases h
  rw [Log.bound, hname]
  rfl

/-- Filling a slot tells of the address that is replaced, if there is one and it is another,
and of the one that is put there. -/
theorem Fills.tells {held : Option String} {a : String} (h : r.Fills call r' name m held a)
    (visible : ∀ name ∈ r.names, Text.blank name = false) :
    Log.ofLevel .info (r.logged call) =
      [⟨.info, some name, "Resolved " ++ m.name ++ " -> " ++ a⟩] ∧
    (∀ old, held = some old → old ≠ a → Log.ofLevel .warning (r.logged call) =
      [⟨.warning, none, "Replacing " ++ m.path ++ ": " ++ old ++ " -> " ++ a⟩]) ∧
    (held = none ∨ held = some a → Log.ofLevel .warning (r.logged call) = []) := by
  obtain ⟨e, he, rfl, hlogged⟩ := h.logged
  have hname := visible name (isSome_find?_iff.mp (Option.isSome_of_eq_some he))
  rw [hlogged, bound_of_visible hname, Record.resolveLines]
  refine ⟨?_, ?_, ?_⟩
  · cases e.edition.record.address m with
    | none => rfl
    | some old => by_cases hold : old = a <;> simp [Log.ofLevel, Log.line, Record.replacing, hold]
  · intro old hold hne
    simp [Log.ofLevel, Log.line, Record.replacing, hold, hne]
  · rintro (hheld | hheld) <;> simp [Log.ofLevel, Log.line, hheld]

/-- A call that fills no slot logs nothing but lines for debugging. -/
theorem debug_of_not_fills (h : ∀ r' name m held a, ¬r.Fills call r' name m held a) {l : Log.Line}
    (hl : l ∈ r.logged call) : l.level = .debug := by
  cases call with
  | register v offer => exact debug_of_mem_register hl
  | resolve v module address =>
      refine debug_of_mem_resolve (fun new r' hresult => ?_) hl
      obtain ⟨name, m, held, a, hfills⟩ :=
        exists_fills (attempt_resolve_eq_ok_iff.mpr ⟨new, hresult⟩)
      exact h r' name m held a hfills

/-- What a run on a registry that can come about leaves behind. The values that a slot goes
through, each counted once where it is repeated, are the one that it starts with and the
addresses of its module that are added to the history; so they are for an environment that is
registered in the run, whose whole history is of the run. Each call that resolves a module,
whether it changes anything or not, logs one line about it under the environment; it logs one
warning if the slot held another address, and none else. No other call logs such lines. -/
theorem run_audit (reachable : Reachable r) (calls : List Call) :
    (∀ name edition past, (r.get (.str name)).result = .ok edition →
      (r.history (.str name)).result = .ok past →
      ∃ added, ((r.run calls).history (.str name)).result = .ok (past ++ added) ∧
        ∀ m, (r.slots calls name m).destutter (· ≠ ·) =
          (edition.record.address m :: addressesOf m added).destutter (· ≠ ·)) ∧
    (∀ name c, (name, c) ∈ (r.accepted calls).filterMap Call.registration? →
      ∃ history, ((r.run calls).history (.str name)).result = .ok history ∧
        ∀ m, (r.slots calls name m).destutter (· ≠ ·) =
          (c.address m :: addressesOf m history).destutter (· ≠ ·)) ∧
    ∀ before call after, calls = before ++ call :: after →
      (∀ r' name m held a, (r.run before).Fills call r' name m held a →
        Log.ofLevel .info ((r.run before).logged call) =
          [⟨.info, some name, "Resolved " ++ m.name ++ " -> " ++ a⟩] ∧
        (∀ old, held = some old → old ≠ a → Log.ofLevel .warning ((r.run before).logged call) =
          [⟨.warning, none, "Replacing " ++ m.path ++ ": " ++ old ++ " -> " ++ a⟩]) ∧
        (held = none ∨ held = some a →
          Log.ofLevel .warning ((r.run before).logged call) = [])) ∧
      ((∀ r' name m held a, ¬(r.run before).Fills call r' name m held a) →
        Log.ofLevel .info ((r.run before).logged call) = [] ∧
        Log.ofLevel .warning ((r.run before).logged call) = []) ∧
      ∀ v module address r', call = .resolve v module address →
        (r.run before).attempt call = .ok r' →
        ∃ name m held a, (r.run before).Fills call r' name m held a := by
  refine ⟨?_, ?_, ?_⟩
  · intro name edition past hget hpast
    obtain ⟨e, he, rfl⟩ := result_get_eq_ok_iff.mp hget
    obtain ⟨e₁, he₁, rfl⟩ := result_history_eq_ok_iff.mp hpast
    cases he.symm.trans he₁
    obtain ⟨_, hname, he⟩ := findJson?_eq_some_iff.mp he
    cases hname
    obtain ⟨e', added, he', hhistory, hvalues⟩ := exists_added_of_find? he calls
    exact ⟨added, result_history_eq_ok_iff.mpr
      ⟨e', findJson?_eq_some_iff.mpr ⟨name, rfl, he'⟩, hhistory⟩, hvalues⟩
  · intro name c hregistered
    obtain ⟨e', he', hvalues⟩ := exists_history_of_registered hregistered
    exact ⟨e'.history, result_history_eq_ok_iff.mpr
      ⟨e', findJson?_eq_some_iff.mpr ⟨name, rfl, he'⟩, rfl⟩, hvalues⟩
  · intro before call after _
    have visible := visible_run (sound_of_reachable reachable).visible before
    refine ⟨fun r' name m held a hfills => hfills.tells visible, fun hno => ?_, ?_⟩
    · have hdebug : ∀ l ∈ (r.run before).logged call, l.level = .debug :=
        fun l hl => debug_of_not_fills hno hl
      exact ⟨Log.ofLevel_eq_nil (by decide) hdebug, Log.ofLevel_eq_nil (by decide) hdebug⟩
    · rintro v module address r' rfl hcall
      exact exists_fills hcall

/-- A slot that is filled, filled again with the same and with another address, and calls that
fail. -/
def refilling : List Call :=
  [.resolve (.str "a") (.str "fee_pool") (.str "f"),
    .register (.str "a") (.record escaping),
    .resolve (.str "a") (.str "fee_pool") (.str "f"),
    .resolve (.str "a") (.str " FEE_POOL") (.str "f"),
    .resolve (.str "a") (.str "fee_pool") (.str " "),
    .resolve (.str "a") (.str "fee_pool") (.str "g")]

theorem run_audit_of_refilling :
    ((run {} refilling).history (.str "a")).result =
      .ok [(.feePool, "f"), (.feePool, "f"), (.feePool, "g")] ∧
    (slots {} refilling "a" .feePool).destutter (· ≠ ·) =
      [some "\"fee\\pool\"", some "f", some "g"] ∧
    Log.ofLevel .warning ((run {} (refilling.take 5)).logged
      (.resolve (.str "a") (.str "fee_pool") (.str "g"))) =
        [⟨.warning, none, "Replacing engineInitMsg.fee_pool: f -> g"⟩] := by
  obtain ⟨-, hregistered, htold⟩ := run_audit (.empty 0) refilling
  have haccepted : (accepted {} refilling).filterMap Call.registration? = [("a", escaping)] := by
    rfl
  have hhistory : ((run {} refilling).history (.str "a")).result =
      .ok [(.feePool, "f"), (.feePool, "f"), (.feePool, "g")] := by
    rfl
  obtain ⟨history, hresult, hvalues⟩ :=
    hregistered "a" escaping (haccepted ▸ List.mem_singleton_self _)
  cases hhistory.symm.trans hresult
  refine ⟨hhistory, (hvalues .feePool).trans (by decide), ?_⟩
  obtain ⟨hfills, -⟩ := htold (refilling.take 5) _ [] rfl
  have hcall : Fills (run {} (refilling.take 5))
      (.resolve (.str "a") (.str "fee_pool") (.str "g")) (run {} refilling) "a" .feePool
      (some "f") "g" :=
    ⟨⟨_, rfl, Module.parse_name .feePool⟩, by rfl, by rfl, by rfl⟩
  exact (hfills _ _ _ _ _ hcall).2.1 "f" rfl (by decide)

end Registry

end PerpRollout
