import PerpRollout.Plan
import PerpRollout.Proofs.Record.Slots
import PerpRollout.Proofs.Rules.Resolved

/-!
# The walk through a deployment

A deployer takes the next step, sends its message, and resolves the module that the step
yields before going on (`Deployment.walk`). From a record that passes the template rules,
with reserves that are not zero and with the addresses that no step yields, the walk goes
through: each step that is open at the start is taken once, in order, and the record at
the end passes the rules of every step (`walk_finishes`).

The order of the steps carries this: what a step needs is yielded by a step before it or
by none (`Step.earlier_of_requirement`).
-/

namespace PerpRollout

namespace Step

theorem nodup_order : order.Nodup := by
  decide

theorem eq_of_output? {s t : Step} {m : Module} (hs : s.output? = some m)
    (ht : t.output? = some m) : s = t := by
  cases s <;> cases t <;> cases hs <;> cases ht <;> rfl

theorem yielded_before (s : Step) : ∀ m ∈ s.requirements,
    (∀ t ∈ order, t.output? ≠ some m) ∨ ∃ t ∈ order.takeWhile (· ≠ s), t.output? = some m := by
  cases s <;> decide

/-- A step needs modules that no step yields, and modules that earlier steps yield. -/
theorem earlier_of_requirement {before todo : List Step} {s : Step}
    (horder : order = before ++ s :: todo) {m : Module} (hm : m ∈ s.requirements) :
    (∀ t : Step, t.output? ≠ some m) ∨ ∃ t ∈ before, t.output? = some m := by
  have hbefore : order.takeWhile (· ≠ s) = before := by
    have hne : ∀ t ∈ before, decide (t ≠ s) = true := by
      intro t ht
      have hnodup := horder ▸ nodup_order
      rw [decide_eq_true_eq]
      exact (List.nodup_append.mp hnodup).2.2 t ht s List.mem_cons_self
    rw [horder, List.takeWhile_append_of_pos hne, List.takeWhile_cons_of_neg (by simp),
      List.append_nil]
  have h := yielded_before s m hm
  rw [hbefore] at h
  exact h.imp_left fun hno t => hno t t.mem_order

/-- The modules that a step needs have their slots in its message; the one other slot is
that of the collateral, which no step needs. -/
theorem mem_requirements_iff {s : Step} {m : Module} :
    m ∈ s.requirements ↔ m.home = s.message ∧ m ≠ .eligibleCollateral := by
  cases s <;> cases m <;> decide

end Step

namespace Deployment

open Rules

/-! ## The walk -/

/-- A step that is taken, with the record it is taken from and the message it sends. -/
structure Visit where
  step : Step
  record : Record
  message : Json

/-- The record after a step: what the step yields is resolved to its address. -/
def settle (addresses : Module → String) (r : Record) (s : Step) : Logged Record :=
  match s.output? with
  | none => return r
  | some m => r.resolve m (.str (addresses m))

theorem not_mem_of_nextStep? {r : Record} {completed : List Step} {s : Step}
    (h : r.nextStep? completed = some s) : s ∉ completed := by
  have hs := List.find?_some h
  simp only [Record.isDone, Bool.not_eq_true', Bool.or_eq_false_iff] at hs
  simpa using hs.1

theorem length_open_lt {completed : List Step} {s : Step} (hs : s ∉ completed) :
    (Step.order.filter (· ∉ completed ++ [s])).length <
      (Step.order.filter (· ∉ completed)).length := by
  have hfilter : Step.order.filter (· ∉ completed ++ [s]) =
      (Step.order.filter (· ∉ completed)).filter (· ≠ s) := by
    rw [List.filter_filter]
    refine List.filter_congr fun t _ => ?_
    simp [and_comm]
  rw [hfilter, List.length_filter_lt_length_iff_exists]
  exact ⟨s, List.mem_filter.mpr ⟨s.mem_order, by simpa using hs⟩, by simp⟩

/-- Takes the next step until there is none. -/
def walk (env : Option String) (addresses : Module → String) (r : Record)
    (completed : List Step) : Logged (List Visit × Record) :=
  match h : r.nextStep? completed with
  | none => return ([], r)
  | some s => do
    have := length_open_lt (not_mem_of_nextStep? h)
    let message ← r.stepMessage env s
    let next ← settle addresses r s
    let (visits, final) ← walk env addresses next (completed ++ [s])
    return (⟨s, r, message⟩ :: visits, final)
termination_by (Step.order.filter (· ∉ completed)).length
decreasing_by exact this

variable {env : Option String} {addresses : Module → String} {r : Record}
  {completed : List Step}

theorem walk_of_none (h : r.nextStep? completed = none) :
    walk env addresses r completed = return ([], r) := by
  rw [walk]
  split
  next => rfl
  next s hs =>
    rw [h] at hs
    cases hs

theorem walk_of_some {s : Step} (h : r.nextStep? completed = some s) :
    walk env addresses r completed = do
      let message ← r.stepMessage env s
      let next ← settle addresses r s
      let (visits, final) ← walk env addresses next (completed ++ [s])
      return (⟨s, r, message⟩ :: visits, final) := by
  rw [walk]
  split
  next hnone =>
    rw [h] at hnone
    cases hnone
  next t ht =>
    rw [h] at ht
    cases ht
    rfl

/-! ## Records that the walk goes through with -/

/-- A record that is ready but for the addresses that steps yield. -/
structure IsFit (env : Option String) (r : Record) : Prop where
  template : check r env .template = .ok []
  quote_ne_zero : Numeral.value r.vamm.quoteReserve.toList ≠ 0
  base_ne_zero : Numeral.value r.vamm.baseReserve.toList ≠ 0
  /-- What the slots that steps look at hold is an address. -/
  isAddress : ∀ s : Step, ∀ m ∈ s.requirements, ∀ a ∈ r.address m, IsAddress a
  /-- The addresses that no step yields are there. -/
  given : ∀ s : Step, ∀ m ∈ s.requirements,
    (∀ t : Step, t.output? ≠ some m) → r.isResolved m = true

theorem isResolved_setAddress_self (r : Record) (m : Module) (a : String) :
    (r.setAddress m a).isResolved m = true := by
  rw [Record.isResolved, Record.address_setAddress_self]
  rfl

theorem isResolved_setAddress {r : Record} {n : Module} (h : r.isResolved n = true) (m : Module)
    (a : String) : (r.setAddress m a).isResolved n = true := by
  by_cases hn : n = m
  · rw [hn]
    exact isResolved_setAddress_self r m a
  · rw [Record.isResolved, Record.address_setAddress_of_ne r a hn]
    exact h

theorem IsFit.setAddress (h : IsFit env r) (m : Module) {a : String} (ha : IsAddress a) :
    IsFit env (r.setAddress m a) where
  template := (check_template_setAddress env r m a).trans h.template
  quote_ne_zero := by cases m <;> exact h.quote_ne_zero
  base_ne_zero := by cases m <;> exact h.base_ne_zero
  isAddress s n hn b hb := by
    by_cases hm : n = m
    · rw [hm, Record.address_setAddress_self] at hb
      cases hb
      exact ha
    · rw [Record.address_setAddress_of_ne r a hm] at hb
      exact h.isAddress s n hn b hb
  given s n hn hno := isResolved_setAddress (h.given s n hn hno) m a

/-- Where the template finds nothing and the reserves are not zero, all that steps can find
fault with is the addresses they need. -/
theorem check_eq_nil_iff_of_template (htemplate : check r env .template = .ok [])
    (hquote : Numeral.value r.vamm.quoteReserve.toList ≠ 0)
    (hbase : Numeral.value r.vamm.baseReserve.toList ≠ 0) {scope : Scope} {steps : List Step}
    (hsteps : scope.steps = .ok steps) :
    check r env scope = .ok [] ↔
      ∀ s ∈ steps, ∀ m ∈ s.requirements, ∃ a ∈ r.address m, IsAddress a := by
  obtain ⟨hlegible, hobeys⟩ := (check_eq_nil_iff rfl).mp htemplate
  have hquoteReserve : Place.IsReserve r.vamm.quoteReserve := (hobeys .quoteReserve).1
  have hbaseReserve : Place.IsReserve r.vamm.baseReserve := (hobeys .baseReserve).1
  have hproduct := hquoteReserve.product_le hbaseReserve
  rw [check_eq_nil_iff hsteps]
  constructor
  · rintro ⟨-, h⟩ s hs m hm
    exact h (.slot m) ⟨s, hs, hm⟩
  · refine fun h => ⟨?_, fun p => ?_⟩
    · exact {
        numerals := hlegible.numerals
        decimals := hlegible.decimals
        fundingPeriod := hlegible.fundingPeriod
        product := fun _ _ _ hwide => absurd hproduct (Nat.not_le.mpr hwide) }
    · have hp := hobeys p
      cases p with
      | quoteReserve => exact ⟨hquoteReserve, fun _ _ => ⟨hquote, fun _ => hproduct⟩⟩
      | baseReserve => exact ⟨hbaseReserve, fun _ _ _ => hbase⟩
      | slot m =>
          rintro ⟨s, hs, hm⟩
          exact h s hs m hm
      | _ => exact hp

/-- The rules of steps whose modules are all resolved. -/
theorem IsFit.check_eq_nil (h : IsFit env r) {scope : Scope} {steps : List Step}
    (hsteps : scope.steps = .ok steps)
    (hresolved : ∀ s ∈ steps, ∀ m ∈ s.requirements, r.isResolved m = true) :
    check r env scope = .ok [] := by
  rw [check_eq_nil_iff_of_template h.template h.quote_ne_zero h.base_ne_zero hsteps]
  intro s hs m hm
  obtain ⟨a, ha⟩ := Option.isSome_iff_exists.mp (hresolved s hs m hm)
  exact ⟨a, ha, h.isAddress s m hm a ha⟩

/-! ## One step of the walk -/

/-- The record with what the step yields at its address. -/
def settled (addresses : Module → String) (r : Record) (s : Step) : Record :=
  match s.output? with
  | none => r
  | some m => r.setAddress m (addresses m)

theorem result_settle {s : Step} (h : ∀ m ∈ s.output?, IsAddress (addresses m)) :
    (settle addresses r s).result = .ok (settled addresses r s) := by
  unfold settle settled
  split
  next => rfl
  next m hm => exact Record.result_resolve_eq_ok_iff.mpr ⟨_, rfl, h m hm, rfl⟩

theorem stepMessage_of_nil {s : Step} (h : check r env (.step s) = .ok []) :
    r.stepMessage env s = .pure (r.sectionJson s.message) := by
  rw [Record.stepMessage, validate, h]
  rfl

theorem stepMessage_of_cons {s : Step} {first : Invalid} {rest : List Invalid}
    (h : check r env (.step s) = .ok (first :: rest)) :
    r.stepMessage env s = ⟨(first :: rest).map warning, .error (.invalid first)⟩ := by
  rw [Record.stepMessage, validate, h]
  rfl

theorem result_stepMessage {s : Step} (h : check r env (.step s) = .ok []) :
    (r.stepMessage env s).result = .ok (r.sectionJson s.message) := by
  rw [stepMessage_of_nil h]
  rfl

/-- A message is given exactly when nothing is found. -/
theorem exists_result_stepMessage_iff {s : Step} :
    (∃ message, (r.stepMessage env s).result = .ok message) ↔ check r env (.step s) = .ok [] := by
  constructor
  · rintro ⟨message, h⟩
    obtain ⟨_, hvalid, -⟩ := Logged.result_bind_eq_ok_iff.mp h
    rw [validate] at hvalid
    split at hvalid
    next => cases hvalid
    next hnone => exact hnone
    next => cases hvalid
  · exact fun h => ⟨_, result_stepMessage h⟩

theorem isDone_iff {s : Step} :
    r.isDone completed s = true ↔ s ∈ completed ∨ ∃ m ∈ s.output?, r.isResolved m = true := by
  rw [Record.isDone, Bool.or_eq_true, List.contains_iff_mem]
  cases s.output? <;> simp

theorem IsFit.settled (h : IsFit env r) {s : Step}
    (ha : ∀ m ∈ s.output?, IsAddress (addresses m)) : IsFit env (settled addresses r s) := by
  unfold Deployment.settled
  split
  next => exact h
  next m hm => exact h.setAddress m (ha m hm)

theorem isResolved_settled {n : Module} (h : r.isResolved n = true) (s : Step) :
    (settled addresses r s).isResolved n = true := by
  unfold settled
  split
  next => exact h
  next m _ => exact isResolved_setAddress h m _

theorem isResolved_settled_self {s : Step} {m : Module} (h : s.output? = some m) :
    (settled addresses r s).isResolved m = true := by
  unfold settled
  rw [h]
  exact isResolved_setAddress_self r m _

theorem isResolved_settled_of_ne {s : Step} {n : Module} (h : s.output? ≠ some n) :
    (settled addresses r s).isResolved n = r.isResolved n := by
  unfold settled
  split
  next => rfl
  next m hm =>
    have hne : n ≠ m := fun hn => h (hn ▸ hm)
    rw [Record.isResolved, Record.address_setAddress_of_ne r _ hne]
    rfl

/-- A step leaves every other step as open as it was. -/
theorem isDone_settled {s t : Step} (hne : t ≠ s) :
    (settled addresses r s).isDone (completed ++ [s]) t = r.isDone completed t := by
  have hmem : t ∈ completed ++ [s] ↔ t ∈ completed := by simp [hne]
  have hresolved : (∃ m ∈ t.output?, (settled addresses r s).isResolved m = true) ↔
      ∃ m ∈ t.output?, r.isResolved m = true := by
    refine exists_congr fun m => and_congr_right fun hm => ?_
    rw [isResolved_settled_of_ne fun hs => hne (Step.eq_of_output? hm hs)]
  rw [Bool.eq_iff_iff, isDone_iff, isDone_iff, hmem, hresolved]

/-! ## The state of the walk -/

/-- The steps before are done and what they yield is resolved; the others are to come. -/
structure OnWay (r : Record) (completed before todo : List Step) : Prop where
  order : Step.order = before ++ todo
  done : ∀ s ∈ before, r.isDone completed s = true
  resolved : ∀ s ∈ before, ∀ m ∈ s.output?, r.isResolved m = true
  not_mem : ∀ s ∈ todo, s ∉ completed

theorem OnWay.start (r : Record) : OnWay r [] [] Step.order where
  order := rfl
  done := by simp
  resolved := by simp
  not_mem := by simp

variable {before todo : List Step} {s : Step}

theorem OnWay.not_mem_todo (h : OnWay r completed before (s :: todo)) : s ∉ todo := by
  have hnodup := h.order ▸ Step.nodup_order
  exact (List.nodup_cons.mp (List.nodup_append.mp hnodup).2.1).1

theorem OnWay.skip (h : OnWay r completed before (s :: todo)) (hdone : r.isDone completed s = true) :
    OnWay r completed (before ++ [s]) todo where
  order := by rw [h.order, List.append_assoc, List.singleton_append]
  done := List.forall_mem_append.mpr ⟨h.done, by simpa using hdone⟩
  resolved := by
    refine List.forall_mem_append.mpr ⟨h.resolved, ?_⟩
    intro t ht m hm
    rw [List.mem_singleton.mp ht] at hm
    rcases isDone_iff.mp hdone with hmem | ⟨n, hn, hresolved⟩
    · exact absurd hmem (h.not_mem s List.mem_cons_self)
    · cases hm.symm.trans hn
      exact hresolved
  not_mem t ht := h.not_mem t (List.mem_cons_of_mem s ht)

theorem OnWay.visit (h : OnWay r completed before (s :: todo)) :
    OnWay (settled addresses r s) (completed ++ [s]) (before ++ [s]) todo where
  order := by rw [h.order, List.append_assoc, List.singleton_append]
  done := by
    refine List.forall_mem_append.mpr ⟨fun t ht => ?_, by simp [isDone_iff]⟩
    rcases eq_or_ne t s with rfl | hne
    · simp [isDone_iff]
    · rw [isDone_settled hne]
      exact h.done t ht
  resolved := by
    refine List.forall_mem_append.mpr ⟨fun t ht m hm => ?_, fun t ht m hm => ?_⟩
    · exact isResolved_settled (h.resolved t ht m hm) s
    · rw [List.mem_singleton.mp ht] at hm
      exact isResolved_settled_self hm
  not_mem t ht := by
    have hne : t ≠ s := fun hts => h.not_mem_todo (hts ▸ ht)
    simpa [hne] using h.not_mem t (List.mem_cons_of_mem s ht)

theorem OnWay.nextStep?_eq_some (h : OnWay r completed before (s :: todo))
    (hopen : r.isDone completed s = false) : r.nextStep? completed = some s := by
  rw [Record.nextStep?, h.order, List.find?_eq_some_iff_append]
  refine ⟨by simp [hopen], before, todo, rfl, fun t ht => ?_⟩
  simp [h.done t ht]

theorem OnWay.nextStep?_eq_none (h : OnWay r completed before []) :
    r.nextStep? completed = none := by
  rw [Record.nextStep?, List.find?_eq_none]
  intro t ht
  rw [h.order, List.append_nil] at ht
  simp [h.done t ht]

/-- What the step needs is there when its turn comes. -/
theorem OnWay.requirements (h : OnWay r completed before (s :: todo)) (hfit : IsFit env r) :
    ∀ m ∈ s.requirements, r.isResolved m = true := by
  intro m hm
  rcases Step.earlier_of_requirement h.order hm with hno | ⟨t, ht, hyields⟩
  · exact hfit.given s m hm hno
  · exact h.resolved t ht m hyields

/-- At the end every step has what it needs. -/
theorem OnWay.requirements_of_end (h : OnWay r completed before []) (hfit : IsFit env r) :
    ∀ s ∈ Step.order, ∀ m ∈ s.requirements, r.isResolved m = true := by
  intro s hs m hm
  obtain ⟨earlier, later, horder⟩ := List.append_of_mem hs
  rcases Step.earlier_of_requirement horder hm with hno | ⟨t, -, hyields⟩
  · exact hfit.given s m hm hno
  · have ht : t ∈ before := by
      rw [← List.append_nil before, ← h.order]
      exact t.mem_order
    exact h.resolved t ht m hyields

/-! ## The whole walk -/

/-- What a step sends: its section, with the address of each module it needs. -/
structure Visit.IsComplete (v : Visit) : Prop where
  message : v.message = v.record.sectionJson v.step.message
  address : ∀ m ∈ v.step.requirements, ∃ a ∈ v.record.address m,
    IsAddress a ∧ v.message.get? m.field = some (.str a)

theorem lookup_ofOptional (name field : String) (a? : Option String) :
    (Json.ofOptional field a?).lookup name = if name = field then a?.map Json.str else none := by
  cases a? with
  | none => simp [Json.ofOptional]
  | some a =>
      by_cases h : name = field
      · simp [Json.ofOptional, h]
      · simp [Json.ofOptional, List.lookup_cons, beq_eq_false_iff_ne.mpr h, h]

/-- The field of a module's slot is in one section only, and there is nothing but an address
under it. -/
theorem get?_sectionJson (r : Record) (s : Section) (m : Module) :
    (r.sectionJson s).get? m.field = if m.home = s then (r.address m).map Json.str else none := by
  cases s <;> cases m <;>
    simp [Module.home, Module.field, Module.name, Record.sectionJson, Record.address, Json.get?,
      Json.member?, PriceFeed.toJson, Engine.toJson, Vamm.toJson, List.lookup_append,
      List.lookup_cons, lookup_ofOptional]

theorem get?_slot (r : Record) (m : Module) :
    (r.sectionJson m.home).get? m.field = (r.address m).map Json.str := by
  rw [get?_sectionJson, if_pos rfl]

/-- The walk through the steps to come goes through. -/
structure Finishes (env : Option String) (addresses : Module → String) (r : Record)
    (completed todo : List Step) (visits : List Visit) (final : Record) : Prop where
  result : (walk env addresses r completed).result = .ok (visits, final)
  steps : visits.map Visit.step = todo.filter fun s => !r.isDone completed s
  nextStep? : final.nextStep? (completed ++ visits.map Visit.step) = none
  isComplete : ∀ v ∈ visits, v.IsComplete
  record : ∀ earlier v later, visits = earlier ++ v :: later →
    v.record = (earlier.map Visit.step).foldl (settled addresses) r
  final_eq : final = (visits.map Visit.step).foldl (settled addresses) r
  check : check final env .everything = .ok []

theorem Finishes.skip {visits : List Visit} {final : Record}
    (h : Finishes env addresses r completed todo visits final)
    (hdone : r.isDone completed s = true) :
    Finishes env addresses r completed (s :: todo) visits final :=
  { h with steps := by rw [h.steps, List.filter_cons_of_neg (by simp [hdone])] }

theorem Finishes.visit {visits : List Visit} {final : Record}
    (h : Finishes env addresses (settled addresses r s) (completed ++ [s]) todo visits final)
    (haddresses : ∀ m ∈ s.output?, IsAddress (addresses m)) (hfit : IsFit env r)
    (hway : OnWay r completed before (s :: todo)) (hopen : r.isDone completed s = false) :
    Finishes env addresses r completed (s :: todo) (⟨s, r, r.sectionJson s.message⟩ :: visits)
      final := by
  have hresolved := hway.requirements hfit
  have hcheck : Rules.check r env (.step s) = .ok [] :=
    hfit.check_eq_nil rfl fun t ht => by rwa [List.mem_singleton.mp ht]
  exact {
    result := by
      rw [walk_of_some (hway.nextStep?_eq_some hopen), Logged.result_bind_eq_ok_iff]
      refine ⟨_, result_stepMessage hcheck, Logged.result_bind_eq_ok_iff.mpr ?_⟩
      refine ⟨_, result_settle haddresses, Logged.result_bind_eq_ok_iff.mpr ?_⟩
      exact ⟨_, h.result, rfl⟩
    steps := by
      have hrest : ∀ t ∈ todo, (!(settled addresses r s).isDone (completed ++ [s]) t) =
          !r.isDone completed t := by
        intro t ht
        have hne : t ≠ s := fun hts => hway.not_mem_todo (hts ▸ ht)
        rw [isDone_settled hne]
      rw [List.map_cons, h.steps, List.filter_congr hrest, List.filter_cons_of_pos (by simp [hopen])]
    nextStep? := by
      rw [List.map_cons, List.append_cons]
      exact h.nextStep?
    isComplete := by
      refine List.forall_mem_cons.mpr ⟨⟨rfl, fun m hm => ?_⟩, h.isComplete⟩
      obtain ⟨a, ha⟩ := Option.isSome_iff_exists.mp (hresolved m hm)
      refine ⟨a, ha, hfit.isAddress s m hm a ha, ?_⟩
      rw [← (Step.mem_requirements_iff.mp hm).1, get?_slot, ha]
      rfl
    record := by
      intro earlier v later hvisits
      cases earlier with
      | nil =>
          cases hvisits
          rfl
      | cons first earlier =>
          cases hvisits
          exact h.record earlier v later rfl
    final_eq := h.final_eq
    check := h.check }

theorem exists_finishes (haddresses : ∀ s : Step, ∀ m ∈ s.output?, IsAddress (addresses m))
    (hfit : IsFit env r) (hway : OnWay r completed before todo) :
    ∃ visits final, Finishes env addresses r completed todo visits final := by
  -- A step that is done at its turn is passed over: the walk is still at the same record.
  induction todo generalizing r completed before with
  | nil =>
      refine ⟨[], r, ?_⟩
      exact {
        result := by rw [walk_of_none hway.nextStep?_eq_none]; rfl
        steps := rfl
        nextStep? := by simpa using hway.nextStep?_eq_none
        isComplete := by simp
        record := by simp
        final_eq := rfl
        check := hfit.check_eq_nil rfl (hway.requirements_of_end hfit) }
  | cons s todo ih =>
      cases hopen : r.isDone completed s with
      | true =>
          obtain ⟨visits, final, h⟩ := ih hfit (hway.skip hopen)
          exact ⟨visits, final, h.skip hopen⟩
      | false =>
          obtain ⟨visits, final, h⟩ := ih (hfit.settled (haddresses s)) hway.visit
          exact ⟨_, final, h.visit (haddresses s) hfit hway hopen⟩

/-- A record that waits for nothing but what steps yield. -/
theorem isFit_of_addresses (hcheck : check r env .template = .ok [])
    (hquote : Numeral.value r.vamm.quoteReserve.toList ≠ 0)
    (hbase : Numeral.value r.vamm.baseReserve.toList ≠ 0)
    (horacle : ∃ a ∈ r.address .oracleHub, IsAddress a)
    (hfees : ∃ a ∈ r.address .feePool, IsAddress a)
    (hfeed : ∀ a ∈ r.address .pricefeed, IsAddress a)
    (hfund : ∀ a ∈ r.address .insuranceFund, IsAddress a) : IsFit env r := by
  obtain ⟨hub, hhub, hhubAddress⟩ := horacle
  obtain ⟨fees, hfees, hfeesAddress⟩ := hfees
  constructor
  case template => exact hcheck
  case quote_ne_zero => exact hquote
  case base_ne_zero => exact hbase
  case isAddress =>
    intro s m hm a ha
    cases m with
    | oracleHub =>
        cases hhub.symm.trans ha
        exact hhubAddress
    | insuranceFund => exact hfund a ha
    | feePool =>
        cases hfees.symm.trans ha
        exact hfeesAddress
    | eligibleCollateral => exact absurd rfl (Step.mem_requirements_iff.mp hm).2
    | pricefeed => exact hfeed a ha
  case given =>
    intro s m hm hno
    cases m with
    | oracleHub => exact Option.isSome_of_mem hhub
    | insuranceFund => exact absurd rfl (hno .insuranceFund)
    | feePool => exact Option.isSome_of_mem hfees
    | eligibleCollateral => exact absurd rfl (Step.mem_requirements_iff.mp hm).2
    | pricefeed => exact absurd rfl (hno .pricefeed)

/-- From a record that the template rules find nothing wrong with, the walk goes through:
it takes the steps that are open at the start, in order, sends for each its section with
the addresses the step needs, and ends with a record that passes the rules of all steps. -/
theorem walk_finishes (hcheck : check r env .template = .ok [])
    (hquote : Numeral.value r.vamm.quoteReserve.toList ≠ 0)
    (hbase : Numeral.value r.vamm.baseReserve.toList ≠ 0)
    (horacle : ∃ a ∈ r.address .oracleHub, IsAddress a)
    (hfees : ∃ a ∈ r.address .feePool, IsAddress a)
    (hfeed : ∀ a ∈ r.address .pricefeed, IsAddress a)
    (hfund : ∀ a ∈ r.address .insuranceFund, IsAddress a)
    (haddresses : ∀ s : Step, ∀ m ∈ s.output?, IsAddress (addresses m)) :
    ∃ visits final, (walk env addresses r []).result = .ok (visits, final) ∧
      visits.map Visit.step =
        Step.order.filter (fun s => s.output?.all fun m => !r.isResolved m) ∧
      final.nextStep? (visits.map Visit.step) = none ∧
      (∀ v ∈ visits, v.message = v.record.sectionJson v.step.message ∧
        ∀ m ∈ v.step.requirements, ∃ a ∈ v.record.address m,
          IsAddress a ∧ v.message.get? m.field = some (.str a)) ∧
      (∀ earlier v later, visits = earlier ++ v :: later →
        v.record = (earlier.map Visit.step).foldl (settled addresses) r) ∧
      final = (visits.map Visit.step).foldl (settled addresses) r ∧
      check final env .everything = .ok [] := by
  have hfit := isFit_of_addresses hcheck hquote hbase horacle hfees hfeed hfund
  obtain ⟨visits, final, h⟩ := exists_finishes haddresses hfit (OnWay.start r)
  have hopen : ∀ s : Step, (!r.isDone [] s) = s.output?.all fun m => !r.isResolved m := by
    intro s
    rw [Record.isDone]
    cases s.output? <;> rfl
  refine ⟨visits, final, h.result, ?_, h.nextStep?, ?_, h.record, h.final_eq, h.check⟩
  · rw [h.steps]
    exact List.filter_congr fun s _ => hopen s
  · exact fun v hv => ⟨(h.isComplete v hv).message, (h.isComplete v hv).address⟩

/-- A record that lacks only the price feed. -/
def insured : Record where
  priceFeed := ⟨6, some "hub"⟩
  engine := ⟨6, "62500", "62500", "12500", some "fund", some "fees", none⟩
  vamm := ⟨6, "USDC", "ETH", "1200", "1", 3600, "0", "0", "0", none⟩
  assets := [⟨"usd", none, 6⟩]

theorem walk_finishes_of_insured :
    check insured (some "main") .template = .ok [] ∧
      ∃ visits final,
        (walk (some "main") Module.name insured []).result = .ok (visits, final) ∧
        visits.map Visit.step = [.pricefeed, .engine, .vamm] ∧
        final.address .pricefeed = some "pricefeed" ∧
        final.address .insuranceFund = some "fund" ∧
        check final (some "main") .everything = .ok [] := by
  have hcheck : check insured (some "main") .template = .ok [] := rfl
  have haddresses : ∀ s : Step, ∀ m ∈ s.output?, IsAddress m.name := by
    intro s m _
    cases m <;> decide
  have hheld : ∀ a ∈ insured.address .insuranceFund, IsAddress a := by decide
  obtain ⟨visits, final, hwalk, hsteps, -, -, -, hfinal, hend⟩ :=
    walk_finishes hcheck (by decide) (by decide) (by decide) (by decide) (by decide) hheld
      haddresses
  have hvisits : visits.map Visit.step = [.pricefeed, .engine, .vamm] := hsteps
  rw [hvisits] at hfinal
  exact ⟨hcheck, visits, final, hwalk, hvisits, by rw [hfinal]; rfl, by rw [hfinal]; rfl, hend⟩

end Deployment

end PerpRollout
