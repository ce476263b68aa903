import PerpRollout.Proofs.Ledger.Replay
import PerpRollout.Proofs.Registry.Run

/-!
# A registry and the ledger that follows it

A rollout resolves addresses in a registry and records them in a ledger. The
ledger may lag behind: a resolution that succeeds is put on a list, and is
recorded at some later point, in the same order. As long as resolutions wait,
the ledger's history of an environment together with what waits for it is the
registry's history (`Follows`), and both kinds of events keep it so. Once nothing
waits, the ledger makes of the registered record the record of the registry.
-/

namespace PerpRollout

/-- A registry, a ledger, and the resolutions that wait to be recorded, oldest
first. -/
structure Rollout where
  registry : Registry
  ledger : Ledger
  pending : List Registry.Call

namespace Rollout

/-- What happens in a rollout: a call on the registry, or the recording of the
resolution that has waited longest. -/
inductive Event where
  | call (call : Registry.Call)
  | record

/-- What a successful call leaves to be recorded. -/
def toRecord : Registry.Call → List Registry.Call
  | .register _ _ => []
  | .resolve environment module address => [.resolve environment module address]

/-- The ledger after a resolution is recorded, with the arguments of the call. A
recording that fails leaves it as it is. -/
def recorded (l : Ledger) : Registry.Call → Ledger
  | .resolve (.str name) module address =>
    match (({} : Store).record name module address l).result with
    | .ok (_, l') => l'
    | .error _ => l
  | _ => l

/-- The rollout after an event. -/
def next (s : Rollout) : Event → Rollout
  | .call call =>
    match s.registry.attempt call with
    | .ok r => { s with registry := r, pending := s.pending ++ toRecord call }
    | .error _ => s
  | .record =>
    match s.pending with
    | [] => s
    | call :: rest => { s with ledger := recorded s.ledger call, pending := rest }

/-- The rollout after events one after the other. -/
def run (s : Rollout) (events : List Event) : Rollout :=
  events.foldl next s

/-- The start of a rollout: a registry, and a new ledger with nothing to record. -/
def start (r : Registry) : Rollout :=
  ⟨r, (Ledger.create {}).2, []⟩

/-- A resolution that the ledger takes. -/
def Recordable (call : Registry.Call) : Prop :=
  ∃ name module m a, call = .resolve (.str name) module (.str a) ∧
    Module.parse module = .ok m ∧ IsAddress a

/-- The ledger follows the registry in an environment registered with `c`. -/
def Follows (environment : String) (c : Record) (s : Rollout) : Prop :=
  ∃ t e, s.ledger.tables? = some t ∧ s.registry.find? environment = some e ∧
    (∀ call ∈ s.pending, Recordable call) ∧
    t.history environment ++ s.pending.filterMap (Registry.Call.resolution? environment) =
      e.history ∧
    (∀ step ∈ e.history, IsAddress step.2) ∧
    e.edition.record = c.setAll e.history

theorem recorded_of_recordable {l : Ledger} {t : Ledger.Tables} (ht : l.tables? = some t)
    (name : String) {module : Json} {m : Module} {a : String} (hm : Module.parse module = .ok m)
    (ha : IsAddress a) :
    recorded l (.resolve (.str name) module (.str a)) = ⟨some (t.record name m a).2⟩ := by
  have hrecord : (({} : Store).record name module (.str a) l).result =
      .ok ((t.record name m a).1, ⟨some (t.record name m a).2⟩) :=
    Store.result_record_eq_ok_iff.mpr ⟨m, a, t, rfl, hm, rfl, ha, ht, rfl, rfl⟩
  simp [recorded, hrecord]

theorem recordable_of_attempt {r r' : Registry} {call : Registry.Call}
    (h : r.attempt call = .ok r') : ∀ x ∈ toRecord call, Recordable x := by
  rcases Registry.attempt_cases h with ⟨n, offer, edition, issued, rfl, -⟩ |
    ⟨n, module, a, e, m, rfl, -, hm, ha, -⟩
  · intro x hx
    cases hx
  · intro x hx
    rw [List.mem_singleton.mp hx]
    exact ⟨n, module, m, a, rfl, hm, ha⟩

/-- A successful call adds to what waits as it adds to the history. -/
theorem follows_call {environment : String} {c : Record} {s : Rollout}
    (follows : Follows environment c s) {r : Registry} {call : Registry.Call}
    (h : s.registry.attempt call = .ok r) :
    Follows environment c { s with registry := r, pending := s.pending ++ toRecord call } := by
  obtain ⟨t, e, ht, he, hpending, hhist, haddr, hrec⟩ := follows
  have hpending' : ∀ x ∈ s.pending ++ toRecord call, Recordable x :=
    List.forall_mem_append.mpr ⟨hpending, recordable_of_attempt h⟩
  by_cases henv : call.environment = .str environment
  · cases call with
    | register v offer =>
        cases henv
        obtain ⟨hnone, -⟩ := Registry.find?_attempt_register h
        rw [he] at hnone
        cases hnone
    | resolve v module address =>
        cases henv
        obtain ⟨e', m, a, he', hm, rfl, ha, hnew⟩ := Registry.find?_attempt_resolve h
        rw [he] at he'
        cases he'
        have hres := @Registry.Call.resolution?_resolve environment a _ m hm
        refine ⟨t, _, ht, hnew, hpending', ?_, Registry.isAddress_resolved haddr _ _ m ha,
          Registry.setAll_resolved hrec _ m a⟩
        change _ = e.history ++ [(m, a)]
        rw [List.filterMap_append, ← List.append_assoc, hhist]
        simp [toRecord, hres]
  · have hfind := Registry.find?_attempt_of_ne h henv
    rw [he] at hfind
    have hnone : (toRecord call).filterMap (Registry.Call.resolution? environment) = [] := by
      cases call with
      | register v offer => rfl
      | resolve v module address =>
          simp [toRecord, Registry.Call.resolution?_of_ne henv]
    refine ⟨t, e, ht, hfind, hpending', ?_, haddr, hrec⟩
    rw [List.filterMap_append, hnone, List.append_nil, hhist]

/-- What is recorded passes from what waits to the history of the ledger. -/
theorem follows_record {environment : String} {c : Record} {s : Rollout}
    (follows : Follows environment c s) {call : Registry.Call} {rest : List Registry.Call}
    (h : s.pending = call :: rest) :
    Follows environment c { s with ledger := recorded s.ledger call, pending := rest } := by
  obtain ⟨t, e, ht, he, hpending, hhist, haddr, hrec⟩ := follows
  rw [h] at hpending hhist
  obtain ⟨name, module, m, a, rfl, hm, ha⟩ := hpending call (by simp)
  have hledger := recorded_of_recordable ht name hm ha
  refine ⟨(t.record name m a).2, e, by rw [hledger], he, ?_, ?_, haddr, hrec⟩
  · intro x hx
    exact hpending x (List.mem_cons_of_mem _ hx)
  · rw [Ledger.history_record, ← hhist, List.append_assoc]
    by_cases hn : name = environment
    · subst hn
      rw [if_pos rfl, List.filterMap_cons_some (Registry.Call.resolution?_resolve hm)]
      rfl
    · have hne : (Registry.Call.resolve (.str name) module (.str a)).environment ≠
          .str environment := by
        intro heq
        cases heq
        exact hn rfl
      rw [if_neg hn, List.filterMap_cons_none (Registry.Call.resolution?_of_ne hne)]
      rfl

theorem next_call_of_ok {s : Rollout} {r : Registry} {call : Registry.Call}
    (h : s.registry.attempt call = .ok r) :
    s.next (.call call) = { s with registry := r, pending := s.pending ++ toRecord call } := by
  simp [next, h]

theorem next_call_of_error {s : Rollout} {e : Failure} {call : Registry.Call}
    (h : s.registry.attempt call = .error e) : s.next (.call call) = s := by
  simp [next, h]

theorem follows_next {environment : String} {c : Record} {s : Rollout}
    (follows : Follows environment c s) (event : Event) :
    Follows environment c (s.next event) := by
  cases event with
  | call call =>
      cases h : s.registry.attempt call with
      | ok r =>
          rw [next_call_of_ok h]
          exact follows_call follows h
      | error e =>
          rw [next_call_of_error h]
          exact follows
  | record =>
      cases h : s.pending with
      | nil =>
          have hnext : s.next .record = s := by simp [next, h]
          rw [hnext]
          exact follows
      | cons call rest =>
          have hnext : s.next .record =
              { s with ledger := recorded s.ledger call, pending := rest } := by
            simp [next, h]
          rw [hnext]
          exact follows_record follows h

theorem follows_run {environment : String} {c : Record} {s : Rollout}
    (follows : Follows environment c s) (events : List Event) :
    Follows environment c (s.run events) := by
  induction events generalizing s with
  | nil => exact follows
  | cons event events ih => exact ih (follows_next follows event)

/-- A new ledger follows a registry in an environment just registered. -/
theorem follows_start {r r₀ : Registry} {environment : String} {offer : Submission} {c : Record}
    (registered : r.attempt (.register (.str environment) offer) = .ok r₀)
    (offered : offer.record? = some c) : Follows environment c (start r₀) := by
  obtain ⟨-, edition, hoffer, hfind⟩ := Registry.find?_attempt_register registered
  rw [offered] at hoffer
  cases hoffer
  exact ⟨{}, _, rfl, hfind, by simp [start], rfl, by simp, rfl⟩

/-- Take a record `c` registered in any registry, and any events after that. Once
every resolution that succeeded is recorded, the ledger applied to `c`, the
registry's record and the registry's history resolved on `c` are one record. -/
theorem apply_eq_get {r r₀ : Registry} {environment : String} {offer : Submission} {c : Record}
    (registered : (r.register (.str environment) offer).result = .ok r₀)
    (offered : offer.record? = some c) {events : List Event}
    (allRecorded : ((start r₀).run events).pending = []) :
    ∃ edition history,
      (((start r₀).run events).registry.get (.str environment)).result = .ok edition ∧
      (((start r₀).run events).registry.history (.str environment)).result = .ok history ∧
      (((start r₀).run events).ledger.apply c environment).result = .ok edition.record ∧
      (c.resolveAll history).result = .ok edition.record := by
  obtain ⟨t, e, ht, he, -, hhist, haddr, hrec⟩ :=
    follows_run (follows_start (r := r) registered offered) events
  rw [allRecorded, List.filterMap_nil, List.append_nil] at hhist
  have hjson := Registry.findJson?_eq_some_iff.mpr ⟨environment, rfl, he⟩
  refine ⟨e.edition, e.history, Registry.result_get_eq_ok_iff.mpr ⟨e, hjson, rfl⟩,
    Registry.result_history_eq_ok_iff.mpr ⟨e, hjson, rfl⟩, ?_,
    Record.result_resolveAll_eq_ok_iff.mpr ⟨haddr, hrec⟩⟩
  rw [Ledger.result_apply_eq_ok_iff ht (hhist ▸ haddr), hhist]
  exact hrec

def sample : Record where
  priceFeed := ⟨6, none⟩
  engine := ⟨6, "62500", "62500", "12500", none, none, none⟩
  vamm := ⟨6, "USDC", "ETH", "1200", "1", 3600, "0", "0", "0", none⟩
  assets := []

/-- Events in two environments: a module spelled by its field, a slot resolved
twice, two calls that fail, and recordings that lag behind. -/
def sampleEvents : List Event := [
  .call (.resolve (.str "main") (.str " Oracle_Hub_Contract") (.str "hub1")),
  .call (.resolve (.str "local") (.str "fee_pool") (.str "fees")),
  .record,
  .call (.resolve (.str "main") (.str "fee_pool") (.str "two words")),
  .call (.resolve (.str "staging") (.str "fee_pool") (.str "fees")),
  .call (.resolve (.str "main") (.str "pricefeed") (.str "feed")),
  .call (.resolve (.str "main") (.str "oracle_hub") (.str "hub2")),
  .record, .record, .record]

/-- A registry in which another environment is registered already. -/
def sampleRegistry : Registry :=
  ({} : Registry).after (.register (.str "local") (.record sample))

theorem apply_eq_get_of_sample :
    (sampleRegistry.register (.str "main") (.record sample)).result =
      .ok (sampleRegistry.after (.register (.str "main") (.record sample))) ∧
    ((start (sampleRegistry.after (.register (.str "main") (.record sample)))).run
      sampleEvents).pending = [] ∧
    ∃ edition history,
      (((start (sampleRegistry.after (.register (.str "main") (.record sample)))).run
        sampleEvents).registry.get (.str "main")).result = .ok edition ∧
      (((start (sampleRegistry.after (.register (.str "main") (.record sample)))).run
        sampleEvents).registry.history (.str "main")).result = .ok history ∧
      (((start (sampleRegistry.after (.register (.str "main") (.record sample)))).run
        sampleEvents).ledger.apply sample "main").result = .ok edition.record ∧
      (sample.resolveAll history).result = .ok edition.record := by
  have offered : (Submission.record sample).record? = some sample := rfl
  exact ⟨rfl, rfl, apply_eq_get (r := sampleRegistry) rfl offered rfl⟩

end Rollout

end PerpRollout
