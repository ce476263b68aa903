import PerpRollout.Proofs.Ledger.Replay

/-!
# Runs of ledger calls

A store is used by writes, which record an address or save a snapshot, and by queries, which
only read. A run is a list of calls made one after the other: a call that fails leaves the
ledger as it is, and of those that succeed `accepted` keeps what each of them told. All that
a run does to the tables is said in terms of the accepted calls (`Kept`), which one accepted
call extends by itself (`kept_attempt`). `run_tells` reads from this what a ledger tells
after any run on a new one.
-/

namespace PerpRollout

namespace Ledger

/-- A question about an environment. -/
inductive Query where
  | history
  | latest
  /-- A record with the addresses recorded for the environment. -/
  | apply (r : Record)
  | snapshotIds
  /-- The snapshot of that number, or the latest. -/
  | load (id : Option Int)

/-- What a call tells. -/
inductive Answer where
  /-- The number of a new row. -/
  | row (id : Nat)
  | addresses (steps : List (Module × String))
  | record (r : Record)
  | numbers (ids : List Nat)

def ask (l : Ledger) (environment : String) : Query → Logged Answer
  | .history => do return .addresses (← l.history environment)
  | .latest => do return .addresses (← l.latestOf environment)
  | .apply r => do return .record (← l.apply r environment)
  | .snapshotIds => do return .numbers (← l.snapshotIds environment)
  | .load id => do return .record (← l.load environment id)

/-- A ledger whose tables were just created. -/
def fresh : Ledger :=
  (create {}).2

theorem ask_congr {t t' : Tables} {environment : String}
    (hhistory : t'.history environment = t.history environment)
    (hsnapshots : t'.snapshotsOf environment = t.snapshotsOf environment) (query : Query) :
    ask ⟨some t'⟩ environment query = ask ⟨some t⟩ environment query := by
  have history : history ⟨some t'⟩ environment = Ledger.history ⟨some t⟩ environment := by
    change Logged.pure (t'.history environment) = Logged.pure (t.history environment)
    rw [hhistory]
  have latest : latestOf ⟨some t'⟩ environment = latestOf ⟨some t⟩ environment := by
    rw [latestOf, latestOf, history]
  cases query with
  | history => rw [ask, ask, history]
  | latest => rw [ask, ask, latest]
  | apply r => rw [ask, ask, apply, apply, latest]
  | snapshotIds =>
      change Logged.pure (Answer.numbers ((t'.snapshotsOf environment).map _)) = _
      rw [hsnapshots]
      rfl
  | load id =>
      have load : load ⟨some t'⟩ environment id = Ledger.load ⟨some t⟩ environment id := by
        unfold Ledger.load
        change (pure t' >>= _ : Logged Record) = pure t >>= _
        rw [pure_bind, pure_bind, hsnapshots]
      rw [ask, ask, load]

theorem history_save (t : Tables) (environment other text : String) :
    (t.save other text).2.history environment = t.history environment := rfl

theorem snapshotsOf_record (t : Tables) (environment other : String) (m : Module) (a : String) :
    (t.record other m a).2.snapshotsOf environment = t.snapshotsOf environment := rfl

/-- The snapshots of an environment show the row that was added last. -/
theorem snapshotsOf_save (t : Tables) (environment other text : String) :
    (t.save other text).2.snapshotsOf environment =
      t.snapshotsOf environment ++
        if other = environment then [⟨(t.save other text).1, environment, text⟩] else [] := by
  simp only [Tables.save, Tables.snapshotsOf, List.filter_append]
  by_cases h : other = environment <;> simp [h]

theorem nextId_range' (n : Nat) : nextId (List.range' 1 n) = n + 1 := by
  have largest : (List.range' 1 n).foldl max 0 = n := by
    induction n with
    | zero => rfl
    | succ n ih =>
        rw [List.range'_1_concat, List.foldl_append, ih]
        simp [Nat.add_comm]
  rw [nextId, largest]

end Ledger

namespace Store

/-- A call on a store: a write, or a question to its ledger. -/
inductive Call where
  | record (environment : String) (module address : Json)
  | save (environment : String) (r : Record)
  | ask (environment : String) (query : Ledger.Query)

namespace Call

/-- The environment that the call is about. -/
def environment : Call → String
  | .record environment _ _ => environment
  | .save environment _ => environment
  | .ask environment _ => environment

def records : Call → Bool
  | .record .. => true
  | _ => false

def saves : Call → Bool
  | .save .. => true
  | _ => false

/-- The module and the address that the call records for an environment. -/
def recording? (name : String) : Call → Option (Module × String)
  | .record environment module (.str a) =>
    if environment = name then (Module.ofSpelling? module.plain).map fun m => (m, a) else none
  | _ => none

/-- Why a store refuses a write. The environment is looked at first, then the
module, then the address. -/
inductive Refusal (s : Store) : Call → Failure → Prop
  | notPermittedAddress {environment : String} {names : List String}
      (restricted : s.environments = some names) (h : environment ∉ names)
      (module address : Json) : Refusal s (.record environment module address)
        (.notFound (.str environment) (Text.distinctNames names))
  | unknownModule {environment : String} (permitted : s.permit environment = .ok ())
      {module : Json} (h : Module.ofSpelling? module.plain = none) (address : Json) :
      Refusal s (.record environment module address) (.about module .unknownModule)
  | badAddress {environment : String} (permitted : s.permit environment = .ok ())
      {module address : Json} {m : Module} (known : Module.ofSpelling? module.plain = some m)
      (h : ∀ a, address = .str a → ¬ IsAddress a) (fault : Fault) :
      Refusal s (.record environment module address)
        (.invalid ⟨m.path, some environment, .fault fault⟩)
  | notPermittedSnapshot {environment : String} {names : List String}
      (restricted : s.environments = some names) (h : environment ∉ names) (r : Record) :
      Refusal s (.save environment r) (.notFound (.str environment) (Text.distinctNames names))
  | unwritable {environment : String} (permitted : s.permit environment = .ok ()) {r : Record}
      (h : ∀ text, payload r ≠ .ok text) : Refusal s (.save environment r) .integerTooLong

end Call

/-- What a call tells and the ledger it leaves, or why it fails. -/
def attempt (s : Store) (l : Ledger) : Call → Except Failure (Ledger.Answer × Ledger)
  | .record environment module address =>
    (s.record environment module address l).result.map fun (id, l') => (.row id, l')
  | .save environment r => (s.save environment r l).result.map fun (id, l') => (.row id, l')
  | .ask environment query => (l.ask environment query).result.map fun answer => (answer, l)

/-- The ledger after a call, successful or not. -/
def after (s : Store) (l : Ledger) (call : Call) : Ledger :=
  match s.attempt l call with
  | .ok (_, l') => l'
  | .error _ => l

/-- The ledger after calls made one after the other. -/
def run (s : Store) (l : Ledger) (calls : List Call) : Ledger :=
  calls.foldl s.after l

/-- The calls of a run that succeed, with what each of them tells. -/
def accepted (s : Store) (l : Ledger) : List Call → List (Call × Ledger.Answer)
  | [] => []
  | call :: rest =>
    match s.attempt l call with
    | .ok (answer, l') => (call, answer) :: accepted s l' rest
    | .error _ => accepted s l rest

/-- The snapshot that an accepted call saved for an environment, with its number. -/
def saved? (name : String) : Call × Ledger.Answer → Option (Nat × Record)
  | (.save environment r, .row id) => if environment = name then some (id, r) else none
  | _ => none

theorem after_of_ok {s : Store} {l l' : Ledger} {call : Call} {answer : Ledger.Answer}
    (h : s.attempt l call = .ok (answer, l')) : s.after l call = l' := by
  simp [after, h]

theorem after_of_error {s : Store} {l : Ledger} {call : Call} {e : Failure}
    (h : s.attempt l call = .error e) : s.after l call = l := by
  simp [after, h]

theorem run_cons (s : Store) (l : Ledger) (call : Call) (calls : List Call) :
    s.run l (call :: calls) = s.run (s.after l call) calls := rfl

theorem accepted_cons_of_ok {s : Store} {l l' : Ledger} {call : Call} {answer : Ledger.Answer}
    (h : s.attempt l call = .ok (answer, l')) (calls : List Call) :
    s.accepted l (call :: calls) = (call, answer) :: s.accepted l' calls := by
  simp [accepted, h]

theorem accepted_cons_of_error {s : Store} {l : Ledger} {call : Call} {e : Failure}
    (h : s.attempt l call = .error e) (calls : List Call) :
    s.accepted l (call :: calls) = s.accepted l calls := by
  simp [accepted, h]

/-- What was accepted stays so when the run goes on. -/
theorem accepted_append (s : Store) (l : Ledger) (calls more : List Call) :
    s.accepted l (calls ++ more) = s.accepted l calls ++ s.accepted (s.run l calls) more := by
  induction calls generalizing l with
  | nil => rfl
  | cons call calls ih =>
      rw [List.cons_append, run_cons]
      cases h : s.attempt l call with
      | ok x =>
          obtain ⟨answer, l'⟩ := x
          rw [accepted_cons_of_ok h, accepted_cons_of_ok h, after_of_ok h, ih, List.cons_append]
      | error e =>
          rw [accepted_cons_of_error h, accepted_cons_of_error h, after_of_error h, ih]

theorem permit_eq_error {s : Store} {environment : String} {e : Failure}
    (h : s.permit environment = .error e) :
    ∃ names, s.environments = some names ∧ environment ∉ names ∧
      e = .notFound (.str environment) (Text.distinctNames names) := by
  unfold permit at h
  split at h
  · cases h
  next names restricted =>
    split at h
    · cases h
    next hnames =>
      cases h
      exact ⟨names, restricted, by simpa using hnames, rfl⟩

/-- In a restricted store only the listed environments may be written to. -/
theorem mem_of_permit {s : Store} {environment : String} {names : List String}
    (restricted : s.environments = some names) (h : s.permit environment = .ok ()) :
    environment ∈ names := by
  unfold permit at h
  rw [restricted] at h
  simpa using h

theorem payload_eq_error {r : Record} {e : Failure} (h : payload r = .error e) :
    e = .integerTooLong := by
  unfold payload at h
  split at h
  · cases h
  · cases h
    rfl

theorem result_save_eq_ok_iff {s : Store} {environment : String} {r : Record} {l l' : Ledger}
    {id : Nat} :
    (s.save environment r l).result = .ok (id, l') ↔
      ∃ text t, s.permit environment = .ok () ∧ payload r = .ok text ∧ l.tables? = some t ∧
        id = (t.save environment text).1 ∧ l' = ⟨some (t.save environment text).2⟩ := by
  unfold save
  simp only [Logged.result_bind_eq_ok_iff, Logged.result_liftM, Ledger.result_reach_eq_ok_iff]
  constructor
  · intro h
    rcases h with ⟨_, hpermit, text, htext, t, ht, _, -, h⟩
    cases h
    exact ⟨text, t, hpermit, htext, ht, rfl, rfl⟩
  · intro h
    rcases h with ⟨text, t, hpermit, htext, ht, rfl, rfl⟩
    exact ⟨(), hpermit, text, htext, t, ht, (), rfl, rfl⟩

/-- Everything a successful call can have done. -/
theorem attempt_cases {s : Store} {l l' : Ledger} {call : Call} {answer : Ledger.Answer}
    (h : s.attempt l call = .ok (answer, l')) :
    (∃ environment module a m t, call = .record environment module (.str a) ∧
      s.permit environment = .ok () ∧ Module.parse module = .ok m ∧ IsAddress a ∧
      l.tables? = some t ∧ answer = .row (t.record environment m a).1 ∧
      l' = ⟨some (t.record environment m a).2⟩) ∨
    (∃ environment r text t, call = .save environment r ∧ s.permit environment = .ok () ∧
      payload r = .ok text ∧ l.tables? = some t ∧ answer = .row (t.save environment text).1 ∧
      l' = ⟨some (t.save environment text).2⟩) ∨
    (∃ environment query, call = .ask environment query ∧
      (l.ask environment query).result = .ok answer ∧ l' = l) := by
  cases call with
  | record environment module address =>
      obtain ⟨⟨id, new⟩, hrecord, hnew⟩ := map_eq_ok_iff.mp h
      cases hnew
      obtain ⟨m, a, t, hpermit, hm, rfl, ha, ht, rfl, rfl⟩ := result_record_eq_ok_iff.mp hrecord
      exact .inl ⟨environment, module, a, m, t, rfl, hpermit, hm, ha, ht, rfl, rfl⟩
  | save environment r =>
      obtain ⟨⟨id, new⟩, hsave, hnew⟩ := map_eq_ok_iff.mp h
      cases hnew
      obtain ⟨text, t, hpermit, htext, ht, rfl, rfl⟩ := result_save_eq_ok_iff.mp hsave
      exact .inr (.inl ⟨environment, r, text, t, rfl, hpermit, htext, ht, rfl, rfl⟩)
  | ask environment query =>
      obtain ⟨told, hask, hnew⟩ := map_eq_ok_iff.mp h
      cases hnew
      exact .inr (.inr ⟨environment, query, rfl, hask, rfl⟩)

/-- A write fails for one of its refusals, while the tables are there. -/
theorem refusal_of_attempt {s : Store} {t : Ledger.Tables} {call : Call} {e : Failure}
    (h : s.attempt ⟨some t⟩ call = .error e) :
    call.Refusal s e ∨ ∃ environment query, call = .ask environment query := by
  cases call with
  | record environment module address =>
      refine .inl ?_
      have hrecord : (s.record environment module address ⟨some t⟩).result = .error e :=
        map_eq_error_iff.mp h
      unfold record at hrecord
      simp only [Logged.result_bind, Logged.result_liftM, bind_eq_error_iff] at hrecord
      rcases hrecord with hpermit | ⟨_, permitted, hparse | ⟨m, hm, haddress | ⟨a, -, h⟩⟩⟩
      · obtain ⟨names, restricted, hnames, rfl⟩ := permit_eq_error hpermit
        exact .notPermittedAddress restricted hnames module address
      · obtain ⟨hnone, rfl⟩ := Module.parse_eq_error hparse
        exact .unknownModule permitted hnone address
      · obtain ⟨hnot, fault, rfl⟩ := Check.within_address_eq_error haddress
        exact .badAddress permitted (Module.parse_eq_ok_iff.mp hm) hnot fault
      · rcases h with h | ⟨_, -, h | ⟨_, -, h⟩⟩
        · cases h
        · cases h
        · cases h
  | save environment r =>
      refine .inl ?_
      have hsave : (s.save environment r ⟨some t⟩).result = .error e :=
        map_eq_error_iff.mp h
      unfold save at hsave
      simp only [Logged.result_bind, Logged.result_liftM, bind_eq_error_iff] at hsave
      rcases hsave with hpermit | ⟨_, permitted, hpayload | ⟨text, -, h | ⟨_, -, h | ⟨_, -, h⟩⟩⟩⟩
      · obtain ⟨names, restricted, hnames, rfl⟩ := permit_eq_error hpermit
        exact .notPermittedSnapshot restricted hnames r
      · have hnot : ∀ text, payload r ≠ .ok text := by
          intro text htext
          rw [htext] at hpayload
          cases hpayload
        rw [payload_eq_error hpayload]
        exact .unwritable permitted hnot
      · cases h
      · cases h
      · cases h
  | ask environment query => exact .inr ⟨environment, query, rfl⟩

/-- The text of a snapshot of a record, where no integer is too long. -/
def written (r : Record) : String :=
  (r.toJson.sortKeys.render .line).1

theorem eq_written_of_payload {r : Record} {text : String} (h : payload r = .ok text) :
    text = written r := by
  unfold payload at h
  unfold written
  split at h
  next text' heq =>
    cases h
    rw [heq]
  · cases h

variable {s : Store} {done : List (Call × Ledger.Answer)} {t : Ledger.Tables}

/-- What the accepted calls of a run make of the tables. -/
structure Kept (s : Store) (done : List (Call × Ledger.Answer)) (t : Ledger.Tables) : Prop where
  recorded : ∀ environment,
    t.history environment = done.filterMap fun x => x.1.recording? environment
  named : ∀ x ∈ done, x.1.records = true → (x.1.recording? x.1.environment).isSome
  saved : ∀ environment, t.snapshotsOf environment =
    (done.filterMap (saved? environment)).map fun x => ⟨x.1, environment, written x.2⟩
  numbers : (done.filter fun x => x.1.records).map Prod.snd =
    t.addresses.map fun row => .row row.id
  numbersSaved : (done.filter fun x => x.1.saves).map Prod.snd =
    t.snapshots.map fun row => .row row.id
  numbered : t.addresses.map AddressRow.id = List.range' 1 t.addresses.length
  numberedSnapshots : t.snapshots.map SnapshotRow.id = List.range' 1 t.snapshots.length
  addresses : ∀ row ∈ t.addresses, IsAddress row.address
  payloads : ∀ environment, ∀ x ∈ done.filterMap (saved? environment),
    payload x.2 = .ok (written x.2)
  permitted : ∀ row ∈ t.addresses, s.permit row.environment = .ok ()
  permittedSnapshots : ∀ row ∈ t.snapshots, s.permit row.environment = .ok ()

theorem kept_fresh (s : Store) : Kept s [] {} where
  recorded _ := rfl
  named := by simp
  saved _ := rfl
  numbers := rfl
  numbersSaved := rfl
  numbered := rfl
  numberedSnapshots := rfl
  addresses := by simp
  payloads := by simp
  permitted := by simp
  permittedSnapshots := by simp

theorem id_record (kept : Kept s done t) (environment : String) (m : Module) (a : String) :
    (t.record environment m a).1 = t.addresses.length + 1 := by
  change Ledger.nextId (t.addresses.map AddressRow.id) = _
  rw [kept.numbered, Ledger.nextId_range']

theorem id_save (kept : Kept s done t) (environment text : String) :
    (t.save environment text).1 = t.snapshots.length + 1 := by
  change Ledger.nextId (t.snapshots.map SnapshotRow.id) = _
  rw [kept.numberedSnapshots, Ledger.nextId_range']

theorem kept_record (kept : Kept s done t) {environment : String} {module : Json} {m : Module}
    {a : String} (permitted : s.permit environment = .ok ()) (hm : Module.parse module = .ok m)
    (ha : IsAddress a) :
    Kept s (done ++ [(.record environment module (.str a), .row (t.record environment m a).1)])
      (t.record environment m a).2 where
  recorded name := by
    rw [Ledger.history_record, kept.recorded, List.filterMap_append]
    by_cases h : environment = name <;>
      simp [Call.recording?, h, Module.parse_eq_ok_iff.mp hm]
  named := by
    refine List.forall_mem_append.mpr ⟨kept.named, List.forall_mem_singleton.mpr ?_⟩
    intro _
    simp [Call.recording?, Call.environment, Module.parse_eq_ok_iff.mp hm]
  saved name := by
    rw [Ledger.snapshotsOf_record, kept.saved, List.filterMap_append]
    simp [saved?]
  numbers := by
    rw [List.filter_append, List.map_append, kept.numbers]
    simp [Call.records, Ledger.Tables.record]
  numbersSaved := by
    rw [List.filter_append, List.map_append, kept.numbersSaved]
    simp [Call.saves, Ledger.Tables.record]
  numbered := by
    have hid := id_record kept environment m a
    simp only [Ledger.Tables.record] at hid ⊢
    rw [List.map_append, List.map_singleton, hid, kept.numbered, List.length_append,
      List.length_singleton, List.range'_1_concat, Nat.add_comm 1]
  numberedSnapshots := kept.numberedSnapshots
  addresses := List.forall_mem_append.mpr ⟨kept.addresses, List.forall_mem_singleton.mpr ha⟩
  payloads name := by
    rw [List.filterMap_append]
    simpa [saved?] using kept.payloads name
  permitted := List.forall_mem_append.mpr ⟨kept.permitted, List.forall_mem_singleton.mpr permitted⟩
  permittedSnapshots := kept.permittedSnapshots

theorem kept_save (kept : Kept s done t) {environment : String} {r : Record} {text : String}
    (permitted : s.permit environment = .ok ()) (htext : payload r = .ok text) :
    Kept s (done ++ [(.save environment r, .row (t.save environment text).1)])
      (t.save environment text).2 where
  recorded name := by
    rw [Ledger.history_save, kept.recorded, List.filterMap_append]
    simp [Call.recording?]
  named := by
    refine List.forall_mem_append.mpr ⟨kept.named, List.forall_mem_singleton.mpr ?_⟩
    intro h
    cases h
  saved name := by
    rw [Ledger.snapshotsOf_save, kept.saved, List.filterMap_append, List.map_append]
    by_cases h : environment = name <;> simp [saved?, h, eq_written_of_payload htext]
  numbers := by
    rw [List.filter_append, List.map_append, kept.numbers]
    simp [Call.records, Ledger.Tables.save]
  numbersSaved := by
    rw [List.filter_append, List.map_append, kept.numbersSaved]
    simp [Call.saves, Ledger.Tables.save]
  numbered := kept.numbered
  numberedSnapshots := by
    have hid := id_save kept environment text
    simp only [Ledger.Tables.save] at hid ⊢
    rw [List.map_append, List.map_singleton, hid, kept.numberedSnapshots, List.length_append,
      List.length_singleton, List.range'_1_concat, Nat.add_comm 1]
  addresses := kept.addresses
  payloads name := by
    have hwritten : payload r = .ok (written r) := eq_written_of_payload htext ▸ htext
    rw [List.filterMap_append]
    refine List.forall_mem_append.mpr ⟨kept.payloads name, ?_⟩
    by_cases h : environment = name <;> simp [saved?, h, hwritten]
  permitted := kept.permitted
  permittedSnapshots :=
    List.forall_mem_append.mpr ⟨kept.permittedSnapshots, List.forall_mem_singleton.mpr permitted⟩

theorem kept_ask (kept : Kept s done t) (environment : String) (query : Ledger.Query)
    (answer : Ledger.Answer) : Kept s (done ++ [(.ask environment query, answer)]) t where
  recorded name := by
    rw [kept.recorded, List.filterMap_append]
    simp [Call.recording?]
  named := by
    refine List.forall_mem_append.mpr ⟨kept.named, List.forall_mem_singleton.mpr ?_⟩
    intro h
    cases h
  saved name := by
    rw [kept.saved, List.filterMap_append]
    simp [saved?]
  numbers := by
    rw [List.filter_append, List.map_append, kept.numbers]
    simp [Call.records]
  numbersSaved := by
    rw [List.filter_append, List.map_append, kept.numbersSaved]
    simp [Call.saves]
  numbered := kept.numbered
  numberedSnapshots := kept.numberedSnapshots
  addresses := kept.addresses
  payloads name := by
    rw [List.filterMap_append]
    simpa [saved?] using kept.payloads name
  permitted := kept.permitted
  permittedSnapshots := kept.permittedSnapshots

/-- An accepted call keeps the account, extended by that call. -/
theorem kept_attempt {l' : Ledger} {call : Call} {answer : Ledger.Answer} (kept : Kept s done t)
    (h : s.attempt ⟨some t⟩ call = .ok (answer, l')) :
    ∃ t', l' = ⟨some t'⟩ ∧ Kept s (done ++ [(call, answer)]) t' := by
  rcases attempt_cases h with ⟨environment, module, a, m, t₀, rfl, permitted, hm, ha, ht, rfl, rfl⟩ |
    ⟨environment, r, text, t₀, rfl, permitted, htext, ht, rfl, rfl⟩ |
    ⟨environment, query, rfl, -, rfl⟩
  · cases ht
    exact ⟨_, rfl, kept_record kept permitted hm ha⟩
  · cases ht
    exact ⟨_, rfl, kept_save kept permitted htext⟩
  · exact ⟨t, rfl, kept_ask kept environment query answer⟩

/-- The account is kept through a run, successful and failing calls alike. -/
theorem kept_run (kept : Kept s done t) (calls : List Call) :
    ∃ t', s.run ⟨some t⟩ calls = ⟨some t'⟩ ∧ Kept s (done ++ s.accepted ⟨some t⟩ calls) t' := by
  induction calls generalizing done t with
  | nil =>
      refine ⟨t, rfl, ?_⟩
      rw [accepted, List.append_nil]
      exact kept
  | cons call calls ih =>
      rw [run_cons]
      cases h : s.attempt ⟨some t⟩ call with
      | ok x =>
          obtain ⟨answer, l'⟩ := x
          obtain ⟨t', rfl, hnext⟩ := kept_attempt kept h
          rw [after_of_ok h, accepted_cons_of_ok h, List.append_cons]
          exact ih hnext
      | error e =>
          rw [after_of_error h, accepted_cons_of_error h]
          exact ih kept

/-- A call about another environment leaves what the ledger tells about this one. -/
theorem ask_after_of_ne {call : Call} {environment : String} (hne : call.environment ≠ environment)
    (query : Ledger.Query) :
    (s.after ⟨some t⟩ call).ask environment query = Ledger.ask ⟨some t⟩ environment query := by
  cases h : s.attempt ⟨some t⟩ call with
  | error e => rw [after_of_error h]
  | ok x =>
      obtain ⟨answer, l'⟩ := x
      rw [after_of_ok h]
      rcases attempt_cases h with ⟨other, module, a, m, t₀, rfl, -, -, -, ht, -, rfl⟩ |
        ⟨other, r, text, t₀, rfl, -, -, ht, -, rfl⟩ | ⟨other, query', rfl, -, rfl⟩
      · cases ht
        have hother : other ≠ environment := hne
        apply Ledger.ask_congr
        · rw [Ledger.history_record, if_neg hother, List.append_nil]
        · rw [Ledger.snapshotsOf_record]
      · cases ht
        have hother : other ≠ environment := hne
        apply Ledger.ask_congr
        · rw [Ledger.history_save]
        · rw [Ledger.snapshotsOf_save, if_neg hother, List.append_nil]
      · rfl

/-- What a ledger tells after the accepted calls of a run on a new one. -/
structure Accounts (s : Store) (done : List (Call × Ledger.Answer)) (l : Ledger) : Prop where
  /-- The calls that record an address tell the numbers from one on, over all
  environments. -/
  numbered : (done.filter fun x => x.1.records).map Prod.snd =
    (List.range' 1 (done.filter fun x => x.1.records).length).map Ledger.Answer.row
  /-- Each of them names a module, and gives an address for it. -/
  named : ∀ x ∈ done, x.1.records = true → (x.1.recording? x.1.environment).isSome
  /-- The history of an environment is what they record for it, in order. -/
  history : ∀ environment, (l.history environment).result =
    .ok (done.filterMap fun x => x.1.recording? environment)
  /-- The latest addresses are the last ones of that history, each module once. -/
  latest : ∀ environment, ∃ addresses, (l.latestOf environment).result = .ok addresses ∧
    (addresses.map Prod.fst).Nodup ∧ ∀ m, addresses.lookup m =
      Ledger.lastOf m (done.filterMap fun x => x.1.recording? environment)
  /-- No row is stored for an environment outside those that writes are restricted to. -/
  restricted : ∀ names, s.environments = some names → ∃ t, l.tables? = some t ∧
    (∀ row ∈ t.addresses, row.environment ∈ names) ∧
    ∀ row ∈ t.snapshots, row.environment ∈ names

theorem Kept.accounts (kept : Kept s done t) : Accounts s done ⟨some t⟩ where
  numbered := by
    have hlength := congrArg List.length kept.numbers
    rw [List.length_map, List.length_map] at hlength
    rw [kept.numbers, hlength, ← kept.numbered, List.map_map]
    rfl
  named := kept.named
  history environment := congrArg Except.ok (kept.recorded environment)
  latest environment := by
    refine ⟨Ledger.latest (t.history environment), rfl, Ledger.nodup_latest _, ?_⟩
    intro m
    rw [Ledger.lookup_latest, kept.recorded]
  restricted names restricted :=
    ⟨t, rfl, fun row hrow => mem_of_permit restricted (kept.permitted row hrow),
      fun row hrow => mem_of_permit restricted (kept.permittedSnapshots row hrow)⟩

/-- Take any run on a new ledger, successful and failing calls alike. The ledger
then tells exactly what the accepted calls recorded. A further call never changes
what is told about another environment; a write that fails does so for one of its
refusals and leaves the ledger as it is, and so does every question. -/
theorem run_tells (s : Store) (calls : List Call) :
    Accounts s (s.accepted Ledger.fresh calls) (s.run Ledger.fresh calls) ∧
    (∀ call environment query, call.environment ≠ environment →
      (s.after (s.run Ledger.fresh calls) call).ask environment query =
        (s.run Ledger.fresh calls).ask environment query) ∧
    (∀ call e, s.attempt (s.run Ledger.fresh calls) call = .error e →
      (call.Refusal s e ∨ ∃ environment query, call = .ask environment query) ∧
      s.after (s.run Ledger.fresh calls) call = s.run Ledger.fresh calls) ∧
    (∀ environment query, s.after (s.run Ledger.fresh calls) (.ask environment query) =
      s.run Ledger.fresh calls) := by
  obtain ⟨t, hrun, kept⟩ := kept_run (kept_fresh s) calls
  have hfresh : Ledger.fresh = ⟨some {}⟩ := rfl
  rw [hfresh, hrun]
  refine ⟨kept.accounts, ?_, ?_, ?_⟩
  · intro call environment query hne
    exact ask_after_of_ne hne query
  · intro call e h
    exact ⟨refusal_of_attempt h, after_of_error h⟩
  · intro environment query
    cases h : s.attempt ⟨some t⟩ (.ask environment query) with
    | error e => exact after_of_error h
    | ok x =>
        rcases attempt_cases h with ⟨_, _, _, _, _, hcall, -⟩ | ⟨_, _, _, _, hcall, -⟩ |
          ⟨_, _, -, -, hl⟩
        · cases hcall
        · cases hcall
        · exact (after_of_ok h).trans hl

end Store

end PerpRollout
