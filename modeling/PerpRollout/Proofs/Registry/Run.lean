import PerpRollout.Proofs.Registry.Entries

/-!
# Runs of registry calls

A registry is changed by two calls, `register` and `resolve`. A run is a list of
calls made one after the other: a call that fails, for one of its refusals
(`Call.Refusal`), leaves the registry as it is, and the calls that succeed are
kept in order (`accepted`). `Accounts` says what the registry tells after a run,
in terms of the accepted calls alone: which names there are, and for each name
its history and its record. It is carried through a run by `Kept`, the same
account in terms of the entries, of which one accepted call preserves every part
(`kept_attempt`).
-/

namespace PerpRollout.Registry

/-- A call that may change a registry. -/
inductive Call where
  | register (environment : Json) (offer : Submission)
  | resolve (environment module address : Json)

namespace Call

/-- The environment that the call is about. -/
def environment : Call → Json
  | .register environment _ => environment
  | .resolve environment _ _ => environment

/-- The module and the address that the call resolves for an environment. -/
def resolution? (name : String) : Call → Option (Module × String)
  | .resolve (.str environment) module (.str a) =>
    if environment = name then (Module.ofSpelling? module.plain).map fun m => (m, a) else none
  | _ => none

/-- The name and the record that the call registers. -/
def registration? : Call → Option (String × Record)
  | .register (.str name) offer => offer.record?.map fun c => (name, c)
  | _ => none

/-- Why a registry refuses a call. The name is looked at before what is offered for
it, and the environment before the module and the address. -/
inductive Refusal (r : Registry) : Call → Failure → Prop
  | badName {v : Json} (h : ∀ name, v = .str name → Text.blank name = true)
      (offer : Submission) : Refusal r (.register v offer) (.about v .badName)
  | duplicate {name : String} (visible : Text.blank name = false) (h : name ∈ r.names)
      (offer : Submission) : Refusal r (.register (.str name) offer) (.duplicate name)
  | notARecord {name : String} (visible : Text.blank name = false) (free : name ∉ r.names)
      (other : Json) :
      Refusal r (.register (.str name) (.other other)) (.notARecord other.kind)
  | notFound {v : Json} (h : ∀ name ∈ r.names, v ≠ .str name) (module address : Json) :
      Refusal r (.resolve v module address) (.about v (.notFound · r.names))
  | unknownModule {name : String} (known : name ∈ r.names) {module : Json}
      (h : Module.ofSpelling? module.plain = none) (address : Json) :
      Refusal r (.resolve (.str name) module address) (.about module .unknownModule)
  | badAddress {name : String} (known : name ∈ r.names) {module address : Json} {m : Module}
      (spelled : Module.ofSpelling? module.plain = some m)
      (h : ∀ a, address = .str a → ¬ IsAddress a) (fault : Fault) :
      Refusal r (.resolve (.str name) module address)
        (.invalid ⟨m.path, some name, .fault fault⟩)

end Call

/-- The registry that a call makes, or why the call fails. -/
def attempt (r : Registry) : Call → Except Failure Registry
  | .register environment offer => (r.register environment offer).result
  | .resolve environment module address =>
    (r.resolve environment module address).result.map Prod.snd

/-- The registry after a call, successful or not. -/
def after (r : Registry) (call : Call) : Registry :=
  match r.attempt call with
  | .ok r' => r'
  | .error _ => r

/-- The registry after calls made one after the other. -/
def run (r : Registry) (calls : List Call) : Registry :=
  calls.foldl after r

/-- The calls of a run that succeed. -/
def accepted (r : Registry) : List Call → List Call
  | [] => []
  | call :: rest =>
    match r.attempt call with
    | .ok r' => call :: accepted r' rest
    | .error _ => accepted r rest

theorem after_of_ok {r r' : Registry} {call : Call} (h : r.attempt call = .ok r') :
    r.after call = r' := by
  simp [after, h]

theorem after_of_error {r : Registry} {call : Call} {e : Failure}
    (h : r.attempt call = .error e) : r.after call = r := by
  simp [after, h]

theorem run_cons (r : Registry) (call : Call) (calls : List Call) :
    r.run (call :: calls) = (r.after call).run calls := rfl

theorem accepted_cons_of_ok {r r' : Registry} {call : Call} (h : r.attempt call = .ok r')
    (calls : List Call) : r.accepted (call :: calls) = call :: r'.accepted calls := by
  simp [accepted, h]

theorem accepted_cons_of_error {r : Registry} {call : Call} {e : Failure}
    (h : r.attempt call = .error e) (calls : List Call) :
    r.accepted (call :: calls) = r.accepted calls := by
  simp [accepted, h]

theorem attempt_resolve_eq_ok_iff {r r' : Registry} {v module address : Json} :
    r.attempt (.resolve v module address) = .ok r' ↔
      ∃ new, (r.resolve v module address).result = .ok (new, r') := by
  change (r.resolve v module address).result.map Prod.snd = .ok r' ↔ _
  cases (r.resolve v module address).result <;> simp [Except.map, Prod.ext_iff]

theorem attempt_resolve_eq_error_iff {r : Registry} {v module address : Json} {e : Failure} :
    r.attempt (.resolve v module address) = .error e ↔
      (r.resolve v module address).result = .error e := by
  change (r.resolve v module address).result.map Prod.snd = .error e ↔ _
  cases (r.resolve v module address).result <;> simp [Except.map]

/-- Everything a successful call can have done. -/
theorem attempt_cases {r r' : Registry} {call : Call} (h : r.attempt call = .ok r') :
    (∃ name offer edition issued, call = .register (.str name) offer ∧
      Text.blank name = false ∧ r.find? name = none ∧ offer.record? = some edition.record ∧
      r' = ⟨insertEntry ⟨name, edition, []⟩ r.entries, issued⟩) ∨
    (∃ name module a e m, call = .resolve (.str name) module (.str a) ∧
      r.find? name = some e ∧ Module.parse module = .ok m ∧ IsAddress a ∧
      r' = ⟨replaceEntry (Entry.resolved e r.issued (e.edition.record.setAddress m a) m a)
        r.entries, r.issued + 1⟩) := by
  cases call with
  | register v offer =>
      obtain ⟨name, edition, issued, hv, hblank, hfind, hoffer, hr⟩ :=
        result_register_eq_ok_iff.mp h
      subst hv
      exact .inl ⟨name, offer, edition, issued, rfl, hblank, hfind, record?_of_accept hoffer, hr⟩
  | resolve v module address =>
      obtain ⟨new, h⟩ := attempt_resolve_eq_ok_iff.mp h
      obtain ⟨name, e, m, a, hv, he, hm, ha, hok, rfl, hr⟩ := result_resolve_eq_ok_iff.mp h
      subst hv ha
      exact .inr ⟨name, module, a, e, m, rfl, he, hm, hok, hr⟩

@[simp] theorem name_resolved (e : Entry) (issued : Nat) (new : Record) (m : Module)
    (a : String) : (Entry.resolved e issued new m a).name = e.name := rfl

@[simp] theorem record_resolved (e : Entry) (issued : Nat) (new : Record) (m : Module)
    (a : String) : (Entry.resolved e issued new m a).edition.record = new := by
  unfold Entry.resolved
  by_cases h : new = e.edition.record <;> simp [h]

theorem isAddress_resolved {e : Entry} (h : ∀ step ∈ e.history, IsAddress step.2) (issued : Nat)
    (new : Record) (m : Module) {a : String} (ha : IsAddress a) :
    ∀ step ∈ (Entry.resolved e issued new m a).history, IsAddress step.2 :=
  List.forall_mem_append.mpr ⟨h, List.forall_mem_singleton.mpr ha⟩

/-- A resolution keeps the record what its history makes of the first one. -/
theorem setAll_resolved {e : Entry} {c : Record} (h : e.edition.record = c.setAll e.history)
    (issued : Nat) (m : Module) (a : String) :
    (Entry.resolved e issued (e.edition.record.setAddress m a) m a).edition.record =
      c.setAll (Entry.resolved e issued (e.edition.record.setAddress m a) m a).history := by
  rw [record_resolved, h]
  exact (Record.setAll_append_singleton c e.history m a).symm

/-- An accepted call leaves the entries of all other environments alone. -/
theorem find?_attempt_of_ne {r r' : Registry} {call : Call} (h : r.attempt call = .ok r')
    {name : String} (hne : call.environment ≠ .str name) : r'.find? name = r.find? name := by
  rcases attempt_cases h with ⟨n, offer, edition, issued, rfl, -, hfind, -, rfl⟩ |
    ⟨n, module, a, e, m, rfl, he, -, -, rfl⟩
  · have hn : n ≠ name := fun heq => hne (congrArg Json.str heq)
    have hnew := find?_insertEntry (e := ⟨n, edition, []⟩) (find?_eq_none_iff.mp hfind) name
    rw [if_neg hn] at hnew
    exact hnew
  · have hn : e.name ≠ name := by
      rw [name_of_find? he]
      exact fun heq => hne (congrArg Json.str heq)
    change (replaceEntry _ r.entries).find? _ = r.entries.find? _
    rw [find?_replaceEntry]
    cases hx : r.entries.find? fun x => x.name = name with
    | none => rfl
    | some x =>
        have hxn : x.name = name := name_of_find? (r := r) hx
        have hxe : x.name ≠ (Entry.resolved e r.issued
            (e.edition.record.setAddress m a) m a).name := by
          rw [hxn]
          exact Ne.symm hn
        rw [Option.map_some, if_neg hxe]

/-- An accepted registration adds an entry with the record and no history. -/
theorem find?_attempt_register {r r' : Registry} {name : String} {offer : Submission}
    (h : r.attempt (.register (.str name) offer) = .ok r') :
    r.find? name = none ∧ ∃ edition, offer.record? = some edition.record ∧
      r'.find? name = some ⟨name, edition, []⟩ := by
  rcases attempt_cases h with ⟨n, offer', edition, issued, hcall, -, hfind, hoffer, rfl⟩ |
    ⟨n, module, a, e, m, hcall, -⟩
  · cases hcall
    have hnew := find?_insertEntry (e := ⟨name, edition, []⟩) (find?_eq_none_iff.mp hfind) name
    rw [if_pos rfl] at hnew
    exact ⟨hfind, edition, hoffer, hnew⟩
  · cases hcall

/-- An accepted resolution sets the slot of the record and is added to the history. -/
theorem find?_attempt_resolve {r r' : Registry} {name : String} {module address : Json}
    (h : r.attempt (.resolve (.str name) module address) = .ok r') :
    ∃ e m a, r.find? name = some e ∧ Module.parse module = .ok m ∧ address = .str a ∧
      IsAddress a ∧ r'.find? name =
        some (Entry.resolved e r.issued (e.edition.record.setAddress m a) m a) := by
  rcases attempt_cases h with ⟨n, offer, edition, issued, hcall, -⟩ |
    ⟨n, module', a, e, m, hcall, he, hm, ha, rfl⟩
  · cases hcall
  · cases hcall
    refine ⟨e, m, a, he, hm, rfl, ha, ?_⟩
    change (replaceEntry _ r.entries).find? _ = _
    have hx : r.entries.find? (fun x => x.name = name) = some e := he
    rw [find?_replaceEntry, hx, Option.map_some, name_resolved, if_pos rfl]

theorem refusal_of_register {r : Registry} {v : Json} {offer : Submission} {e : Failure}
    (h : (r.register v offer).result = .error e) : (Call.register v offer).Refusal r e := by
  unfold register at h
  simp only [Logged.result_bind, Logged.result_liftM, bind_eq_error_iff, nameOf_eq_ok_iff] at h
  rcases h with hname | ⟨name, ⟨rfl, visible⟩, h⟩
  · obtain ⟨hblank, rfl⟩ := nameOf_eq_error hname
    exact .badName hblank offer
  · split at h
    next htaken =>
      cases h
      exact .duplicate visible (isSome_find?_iff.mp htaken) offer
    next hfree =>
      have free : name ∉ r.names := fun hmem => hfree (isSome_find?_iff.mpr hmem)
      simp only [Logged.result_bind, Logged.result_liftM, bind_eq_error_iff] at h
      rcases h with hoffer | ⟨_, -, h | ⟨_, -, h⟩⟩
      · obtain ⟨other, rfl, rfl⟩ := accept_eq_error hoffer
        exact .notARecord visible free other
      · cases h
      · cases h

theorem refusal_of_resolve {r : Registry} {v module address : Json} {e : Failure}
    (h : (r.resolve v module address).result = .error e) :
    (Call.resolve v module address).Refusal r e := by
  unfold resolve at h
  simp only [Logged.result_bind, Logged.result_liftM, bind_eq_error_iff,
    result_entry_eq_ok_iff, findJson?_eq_some_iff] at h
  rcases h with hentry | ⟨x, ⟨name, rfl, hx⟩, h⟩
  · obtain ⟨hnone, rfl⟩ := result_entry_eq_error hentry
    refine .notFound ?_ module address
    intro name hname hv
    obtain ⟨x, hx⟩ := exists_findJson?_iff.mpr ⟨name, hname, hv⟩
    rw [hnone] at hx
    cases hx
  · have known : name ∈ r.names := isSome_find?_iff.mp (Option.isSome_of_eq_some hx)
    rcases h with hmodule | ⟨m, hm, h⟩
    · obtain ⟨hnone, rfl⟩ := Module.parse_eq_error hmodule
      exact .unknownModule known hnone address
    · rcases h with haddress | ⟨_, -, h | ⟨_, -, h⟩⟩
      · obtain ⟨hnot, fault, rfl⟩ := result_tag_resolve_eq_error haddress
        rw [name_of_find? hx]
        exact .badAddress known (Module.parse_eq_ok_iff.mp hm) hnot fault
      · cases h
      · cases h

/-- A call fails for one of its refusals. -/
theorem refusal_of_attempt {r : Registry} {call : Call} {e : Failure}
    (h : r.attempt call = .error e) : call.Refusal r e := by
  cases call with
  | register v offer => exact refusal_of_register h
  | resolve v module address => exact refusal_of_resolve (attempt_resolve_eq_error_iff.mp h)

/-- The accepted calls tell an entry. One of them registered it with a record;
none before is about the environment, and those after it that are about it are
the resolutions of its history, which make its record of the registered one. -/
def Tells (done : List Call) (e : Entry) : Prop :=
  ∃ before offer since c,
    done = before ++ .register (.str e.name) offer :: since ∧
    (∀ call ∈ before, call.environment ≠ .str e.name) ∧
    (∀ call ∈ since, call.environment = .str e.name → (call.resolution? e.name).isSome) ∧
    offer.record? = some c ∧
    e.history = since.filterMap (Call.resolution? e.name) ∧
    (∀ step ∈ e.history, IsAddress step.2) ∧
    e.edition.record = c.setAll e.history

theorem Call.resolution?_of_ne {call : Call} {name : String}
    (h : call.environment ≠ .str name) : call.resolution? name = none := by
  cases call with
  | register v offer => rfl
  | resolve v module address =>
      cases v <;> cases address <;> try rfl
      next n a =>
        have hn : n ≠ name := fun heq => h (congrArg Json.str heq)
        simp [resolution?, hn]

theorem Call.resolution?_resolve {name a : String} {module : Json} {m : Module}
    (h : Module.parse module = .ok m) :
    (Call.resolve (.str name) module (.str a)).resolution? name = some (m, a) := by
  simp [resolution?, Module.parse_eq_ok_iff.mp h]

theorem tells_of_ne {done : List Call} {e : Entry} (h : Tells done e) {call : Call}
    (hne : call.environment ≠ .str e.name) : Tells (done ++ [call]) e := by
  obtain ⟨before, offer, since, c, rfl, hbefore, hsince, hc, hhist, haddr, hrec⟩ := h
  refine ⟨before, offer, since ++ [call], c, by simp, hbefore, ?_, hc, ?_, haddr, hrec⟩
  · intro x hx henv
    rcases List.mem_append.mp hx with hx | hx
    · exact hsince x hx henv
    · rw [List.mem_singleton.mp hx] at henv
      exact absurd henv hne
  · rw [List.filterMap_append, hhist]
    simp [Call.resolution?_of_ne hne]

theorem tells_register {done : List Call} {name : String} {offer : Submission}
    {edition : Edition} (hdone : ∀ call ∈ done, call.environment ≠ .str name)
    (hoffer : offer.record? = some edition.record) :
    Tells (done ++ [.register (.str name) offer]) ⟨name, edition, []⟩ :=
  ⟨done, offer, [], edition.record, rfl, hdone, by simp, hoffer, rfl, by simp, rfl⟩

theorem tells_resolve {done : List Call} {e : Entry} (h : Tells done e) {module : Json}
    {m : Module} {a : String} (hm : Module.parse module = .ok m) (ha : IsAddress a)
    (issued : Nat) :
    Tells (done ++ [.resolve (.str e.name) module (.str a)])
      (Entry.resolved e issued (e.edition.record.setAddress m a) m a) := by
  obtain ⟨before, offer, since, c, rfl, hbefore, hsince, hc, hhist, haddr, hrec⟩ := h
  have hres := @Call.resolution?_resolve e.name a _ m hm
  refine ⟨before, offer, since ++ [.resolve (.str e.name) module (.str a)], c, by simp,
    hbefore, ?_, hc, ?_, isAddress_resolved haddr issued _ m ha, setAll_resolved hrec issued m a⟩
  · intro x hx henv
    rcases List.mem_append.mp hx with hx | hx
    · exact hsince x hx henv
    · rw [List.mem_singleton.mp hx]
      exact Option.isSome_of_eq_some hres
  · change e.history ++ [(m, a)] = _
    rw [List.filterMap_append, hhist]
    simp [Entry.resolved, hres]

theorem names_insertEntry {e : Entry} {entries : List Entry} {issued : Nat} {name : String} :
    name ∈ names ⟨insertEntry e entries, issued⟩ ↔
      name = e.name ∨ name ∈ names ⟨entries, issued⟩ := by
  simp only [names, List.mem_map, mem_insertEntry]
  constructor
  · intro h
    rcases h with ⟨x, rfl | hx, rfl⟩
    · exact .inl rfl
    · exact .inr ⟨x, hx, rfl⟩
  · intro h
    rcases h with rfl | ⟨x, hx, rfl⟩
    · exact ⟨e, .inl rfl, rfl⟩
    · exact ⟨x, .inr hx, rfl⟩

theorem names_replaceEntry (r : Registry) (e : Entry) (issued : Nat) :
    names ⟨replaceEntry e r.entries, issued⟩ = r.names :=
  map_name_replaceEntry e r.entries

/-- A name is there when it was, or when the call registers a record under it. -/
theorem mem_names_attempt {r r' : Registry} {call : Call} (h : r.attempt call = .ok r')
    (name : String) :
    name ∈ r'.names ↔ name ∈ r.names ∨ ∃ c, call.registration? = some (name, c) := by
  rcases attempt_cases h with ⟨n, offer, edition, issued, rfl, -, -, hoffer, rfl⟩ |
    ⟨n, module, a, e, m, rfl, -, -, -, rfl⟩
  · rw [names_insertEntry]
    change name = n ∨ name ∈ r.names ↔ _
    rw [or_comm]
    simp [Call.registration?, hoffer, eq_comm]
  · rw [names_replaceEntry]
    simp [Call.registration?]

/-- The names after a run are those there were, and those under which an accepted call
registered a record. -/
theorem mem_names_run (r : Registry) (calls : List Call) (name : String) :
    name ∈ (r.run calls).names ↔
      name ∈ r.names ∨ ∃ c, (name, c) ∈ (r.accepted calls).filterMap Call.registration? := by
  induction calls generalizing r with
  | nil => simp [run, accepted]
  | cons call calls ih =>
      rw [run_cons]
      cases h : r.attempt call with
      | ok r' =>
          rw [after_of_ok h, accepted_cons_of_ok h, ih, mem_names_attempt h, or_assoc]
          simp only [List.mem_filterMap, List.exists_mem_cons_iff, exists_or]
      | error e =>
          rw [after_of_error h, accepted_cons_of_error h, ih]

theorem sorted_attempt {r r' : Registry} {call : Call}
    (sorted : r.entries.Pairwise (·.name < ·.name)) (h : r.attempt call = .ok r') :
    r'.entries.Pairwise (·.name < ·.name) := by
  rcases attempt_cases h with ⟨n, offer, edition, issued, rfl, -, hfind, -, rfl⟩ |
    ⟨n, module, a, e, m, rfl, -, -, -, rfl⟩
  · exact pairwise_insertEntry sorted (find?_eq_none_iff.mp hfind)
  · rw [← List.pairwise_map, map_name_replaceEntry, List.pairwise_map]
    exact sorted

theorem visible_attempt {r r' : Registry} {call : Call}
    (visible : ∀ name ∈ r.names, Text.blank name = false) (h : r.attempt call = .ok r') :
    ∀ name ∈ r'.names, Text.blank name = false := by
  rcases attempt_cases h with ⟨n, offer, edition, issued, rfl, hblank, -, -, rfl⟩ |
    ⟨n, module, a, e, m, rfl, -, -, -, rfl⟩
  · intro name hname
    rcases names_insertEntry.mp hname with rfl | hname
    · exact hblank
    · exact visible name hname
  · rw [names_replaceEntry]
    exact visible

theorem known_attempt {r r' : Registry} {done : List Call} {call : Call}
    (known : ∀ x ∈ done, ∃ name ∈ r.names, x.environment = .str name)
    (h : r.attempt call = .ok r') :
    ∀ x ∈ done ++ [call], ∃ name ∈ r'.names, x.environment = .str name := by
  intro x hx
  rcases attempt_cases h with ⟨n, offer, edition, issued, rfl, -, -, -, rfl⟩ |
    ⟨n, module, a, e, m, rfl, he, -, -, rfl⟩
  · rcases List.mem_append.mp hx with hx | hx
    · obtain ⟨name, hname, henv⟩ := known x hx
      exact ⟨name, names_insertEntry.mpr (.inr hname), henv⟩
    · rw [List.mem_singleton.mp hx]
      exact ⟨n, names_insertEntry.mpr (.inl rfl), rfl⟩
  · rw [names_replaceEntry]
    rcases List.mem_append.mp hx with hx | hx
    · exact known x hx
    · rw [List.mem_singleton.mp hx]
      exact ⟨n, isSome_find?_iff.mp (Option.isSome_of_eq_some he), rfl⟩

/-- What the accepted calls of a run keep true of the registry. -/
structure Kept (done : List Call) (r : Registry) : Prop where
  sorted : r.entries.Pairwise (·.name < ·.name)
  visible : ∀ name ∈ r.names, Text.blank name = false
  known : ∀ call ∈ done, ∃ name ∈ r.names, call.environment = .str name
  told : ∀ name e, r.find? name = some e → Tells done e

theorem kept_of_entries_eq_nil {r : Registry} (h : r.entries = []) : Kept [] r where
  sorted := by simp [h]
  visible := by simp [names, h]
  known := by simp
  told := by simp [find?, h]

theorem kept_empty : Kept [] {} :=
  kept_of_entries_eq_nil rfl

/-- An accepted call keeps the account, extended by that call. -/
theorem kept_attempt {done : List Call} {r r' : Registry} {call : Call} (kept : Kept done r)
    (h : r.attempt call = .ok r') : Kept (done ++ [call]) r' where
  sorted := sorted_attempt kept.sorted h
  visible := visible_attempt kept.visible h
  known := known_attempt kept.known h
  told name e' he' := by
    by_cases henv : call.environment = .str name
    · cases call with
      | register v offer =>
          cases henv
          obtain ⟨hnone, edition, hoffer, hnew⟩ := find?_attempt_register h
          rw [hnew] at he'
          cases he'
          refine tells_register ?_ hoffer
          intro x hx hxenv
          obtain ⟨n, hn, hxn⟩ := kept.known x hx
          rw [hxenv] at hxn
          cases hxn
          rw [← isSome_find?_iff, hnone] at hn
          cases hn
      | resolve v module address =>
          cases henv
          obtain ⟨e, m, a, he, hm, rfl, ha, hnew⟩ := find?_attempt_resolve h
          rw [hnew] at he'
          cases he'
          have htold := tells_resolve (kept.told name e he) hm ha r.issued
          rw [name_of_find? he] at htold
          exact htold
    · have hfind := find?_attempt_of_ne h henv
      rw [he'] at hfind
      refine tells_of_ne (kept.told name e' hfind.symm) ?_
      rw [name_of_find? hfind.symm]
      exact henv

/-- The account is kept through a run, successful and failing calls alike. -/
theorem kept_run {done : List Call} {r : Registry} (kept : Kept done r) (calls : List Call) :
    Kept (done ++ r.accepted calls) (r.run calls) := by
  induction calls generalizing done r with
  | nil => simpa [accepted, run] using kept
  | cons call calls ih =>
      rw [run_cons]
      cases h : r.attempt call with
      | ok r' =>
          have hnext := ih (kept_attempt kept h)
          rw [after_of_ok h, accepted_cons_of_ok h]
          simpa using hnext
      | error e =>
          rw [after_of_error h, accepted_cons_of_error h]
          exact ih kept

/-- What a registry tells after the accepted calls of a run on an empty one. -/
structure Accounts (done : List Call) (r : Registry) : Prop where
  /-- The names stand by code points, each once. -/
  sorted : r.names.Pairwise (· < ·)
  count : r.names.length = r.size
  visible : ∀ name ∈ r.names, Text.blank name = false
  /-- Each accepted call, to register or to resolve, is about an environment that has a name. -/
  known : ∀ call ∈ done, ∃ name ∈ r.names, call.environment = .str name
  /-- The environments that have a record are those that have a name. -/
  recorded : ∀ v, (∃ edition, (r.get v).result = .ok edition) ↔ ∃ name ∈ r.names, v = .str name
  /-- The environments that have a history are those that have a name. -/
  tracked : ∀ v, (∃ history, (r.history v).result = .ok history) ↔
    ∃ name ∈ r.names, v = .str name
  /-- One accepted call registered the environment with a record `c`; its history
  is what the accepted calls resolved for it since, in order, and its record is
  `c` with that history resolved on it. -/
  story : ∀ name ∈ r.names, ∃ before offer since c edition history,
    done = before ++ .register (.str name) offer :: since ∧
    (∀ call ∈ before, call.environment ≠ .str name) ∧
    (∀ call ∈ since, call.environment = .str name → (call.resolution? name).isSome) ∧
    offer.record? = some c ∧
    (r.get (.str name)).result = .ok edition ∧
    (r.history (.str name)).result = .ok history ∧
    history = since.filterMap (Call.resolution? name) ∧
    (c.resolveAll history).result = .ok edition.record

theorem Kept.accounts {done : List Call} {r : Registry} (kept : Kept done r) :
    Accounts done r where
  sorted := List.pairwise_map.mpr kept.sorted
  count := List.length_map ..
  visible := kept.visible
  known := kept.known
  recorded v := by
    simp only [result_get_eq_ok_iff, ← exists_findJson?_iff]
    constructor
    · intro h
      rcases h with ⟨_, e, he, -⟩
      exact ⟨e, he⟩
    · intro h
      rcases h with ⟨e, he⟩
      exact ⟨e.edition, e, he, rfl⟩
  tracked v := by
    simp only [result_history_eq_ok_iff, ← exists_findJson?_iff]
    constructor
    · intro h
      rcases h with ⟨_, e, he, -⟩
      exact ⟨e, he⟩
    · intro h
      rcases h with ⟨e, he⟩
      exact ⟨e.history, e, he, rfl⟩
  story name hname := by
    obtain ⟨e, he⟩ := Option.isSome_iff_exists.mp (isSome_find?_iff.mpr hname)
    obtain ⟨before, offer, since, c, hdone, hbefore, hsince, hc, hhist, haddr, hrec⟩ :=
      kept.told name e he
    rw [name_of_find? he] at hdone hbefore hsince hhist
    have hjson : r.findJson? (.str name) = some e := findJson?_eq_some_iff.mpr ⟨name, rfl, he⟩
    exact ⟨before, offer, since, c, e.edition, e.history, hdone, hbefore, hsince, hc,
      result_get_eq_ok_iff.mpr ⟨e, hjson, rfl⟩, result_history_eq_ok_iff.mpr ⟨e, hjson, rfl⟩,
      hhist, Record.result_resolveAll_eq_ok_iff.mpr ⟨haddr, hrec⟩⟩

/-- After any run on an empty registry, successful and failing calls alike, the
registry tells exactly what the accepted calls did. A call that fails, for one
of its refusals, leaves the registry as it is, and one that succeeds leaves the
entries of all other environments as they are. -/
theorem run_accounts (calls : List Call) :
    Accounts (accepted {} calls) (run {} calls) ∧
    (∀ call e, (run {} calls).attempt call = .error e →
      call.Refusal (run {} calls) e ∧ (run {} calls).after call = run {} calls) ∧
    (∀ call r' name, (run {} calls).attempt call = .ok r' → call.environment ≠ .str name →
      (run {} calls).after call = r' ∧ r'.find? name = (run {} calls).find? name) := by
  refine ⟨?_, ?_, ?_⟩
  · have hkept := kept_run kept_empty calls
    rw [List.nil_append] at hkept
    exact hkept.accounts
  · intro call e h
    exact ⟨refusal_of_attempt h, after_of_error h⟩
  · intro call r' name h hne
    exact ⟨after_of_ok h, find?_attempt_of_ne h hne⟩

/-- A record none of whose slots is filled. -/
def unfilled : Record where
  priceFeed := { decimals := 6, oracleHub := none }
  engine := { decimals := 6, initialMarginRatio := "62500", maintenanceMarginRatio := "50000",
              liquidationFee := "0", insuranceFund := none, feePool := none,
              eligibleCollateral := none }
  vamm := { decimals := 6, quoteAsset := "USD", baseAsset := "ETH", quoteReserve := "1000",
            baseReserve := "100", fundingPeriod := 3600, tollRatio := "0", spreadRatio := "0",
            fluctuationLimitRatio := "0", pricefeed := none }
  assets := []

/-- Two environments that resolve addresses, the slot of one of them twice and under
two spellings, among calls that fail. -/
def overwriting : List Call :=
  [.register (.str "main") (.record unfilled),
    .resolve (.str "main") (.str "insurance_fund") (.str "i"),
    .register (.str "main") (.record unfilled),
    .register (.str "dev") (.record unfilled),
    .resolve (.str "main") (.str "insurance_fund") (.str "two words"),
    .resolve (.str "dev") (.str "oracle_hub_contract") (.str "hub"),
    .resolve (.str "main") (.str " Insurance_Fund ") (.str "j")]

theorem run_accounts_of_overwriting :
    (run {} overwriting).names = ["dev", "main"] ∧
    (∃ edition, ((run {} overwriting).get (.str "dev")).result = .ok edition) ∧
    (∃ edition, ((run {} overwriting).get (.str "main")).result = .ok edition ∧
      ((run {} overwriting).history (.str "main")).result =
        .ok [(.insuranceFund, "i"), (.insuranceFund, "j")] ∧
      (unfilled.resolveAll [(.insuranceFund, "i"), (.insuranceFund, "j")]).result =
        .ok edition.record) ∧
    (run {} overwriting).after (.register (.str "dev") (.record unfilled)) = run {} overwriting ∧
    ∃ r', (run {} overwriting).attempt (.resolve (.str "dev") (.str "fee_pool") (.str "f")) =
        .ok r' ∧
      r'.find? "main" = (run {} overwriting).find? "main" := by
  obtain ⟨accounts, refused, framed⟩ := run_accounts overwriting
  have haccepted : accepted {} overwriting =
      [.register (.str "main") (.record unfilled),
        .resolve (.str "main") (.str "insurance_fund") (.str "i"),
        .register (.str "dev") (.record unfilled),
        .resolve (.str "dev") (.str "oracle_hub_contract") (.str "hub"),
        .resolve (.str "main") (.str " Insurance_Fund ") (.str "j")] := by rfl
  rw [haccepted] at accounts
  have hdev : ∃ name ∈ (run {} overwriting).names, Json.str "dev" = .str name :=
    accounts.known (.register (.str "dev") (.record unfilled)) (by simp)
  obtain ⟨_, hmain, hname⟩ := accounts.known (.register (.str "main") (.record unfilled)) (by simp)
  cases hname
  have hduplicate : (run {} overwriting).attempt (.register (.str "dev") (.record unfilled)) =
      .error (.duplicate "dev") := by rfl
  obtain ⟨r', hfill⟩ : ∃ r', (run {} overwriting).attempt
      (.resolve (.str "dev") (.str "fee_pool") (.str "f")) = .ok r' := ⟨_, by rfl⟩
  have hother : Json.str "dev" ≠ .str "main" := by simp
  obtain ⟨before, offer, since, c, edition, history, hdone, hbefore, -, hc, hget, hhistory,
    hsince, hrecord⟩ := accounts.story "main" hmain
  -- The first accepted call is about the environment, so none stands before its registration.
  cases before with
  | cons call before =>
      rw [← (List.cons.inj hdone).1] at hbefore
      exact absurd rfl (hbefore _ (List.mem_cons_self ..))
  | nil =>
      cases hdone
      cases hc
      have hsteps : history = [(.insuranceFund, "i"), (.insuranceFund, "j")] :=
        hsince.trans (by rfl)
      subst hsteps
      exact ⟨by rfl, (accounts.recorded _).mpr hdev, ⟨edition, hget, hhistory, hrecord⟩,
        (refused _ _ hduplicate).2, r', hfill, (framed _ r' "main" hfill hother).2⟩

end PerpRollout.Registry
