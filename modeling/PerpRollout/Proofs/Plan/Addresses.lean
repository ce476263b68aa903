import PerpRollout.Proofs.Plan.Message

/-!
# The addresses in a message

What a slot holds goes back to a call that resolved it, or else to the value that the
record was read from (`Record.address_afterCalls`). Resolving takes nothing but addresses,
reading any text but the empty one. A message is sent only when the addresses that its step
needs are looked at; so whatever stands in a message for an address is one, except that the
collateral, which no step needs, may stand there as it was read (`addresses_of_message`).
-/

namespace PerpRollout

namespace Record

/-- The call resolves the module to the address. -/
def Resolves (call : Json × Json) (m : Module) (a : String) : Prop :=
  Module.parse call.1 = .ok m ∧ call.2 = .str a ∧ IsAddress a

/-- The record after a call that resolves a module; a call that fails leaves it as it was. -/
def afterCall (r : Record) (call : Json × Json) : Record :=
  match (r.withAddress call.1 call.2).result with
  | .ok r' => r'
  | .error _ => r

/-- The record after calls one after the other. -/
def afterCalls (r : Record) (calls : List (Json × Json)) : Record :=
  calls.foldl afterCall r

variable {m : Module} {a : String}

theorem afterCalls_cons (r : Record) (call : Json × Json) (calls : List (Json × Json)) :
    r.afterCalls (call :: calls) = (r.afterCall call).afterCalls calls :=
  List.foldl_cons

theorem Resolves.afterCall_eq {call : Json × Json} (h : Resolves call m a) (r : Record) :
    r.afterCall call = r.setAddress m a := by
  obtain ⟨hm, hv, ha⟩ := h
  have hresult : (r.withAddress call.1 call.2).result = .ok (r.setAddress m a) :=
    result_withAddress_eq_ok_iff.mpr ⟨m, a, hm, hv, ha, rfl⟩
  rw [afterCall, hresult]

theorem afterCall_cases (r : Record) (call : Json × Json) :
    (∃ m a, Resolves call m a ∧ r.afterCall call = r.setAddress m a) ∨
      (∀ m a, ¬Resolves call m a) ∧ r.afterCall call = r := by
  by_cases h : ∃ m a, Resolves call m a
  · obtain ⟨m, a, h⟩ := h
    exact .inl ⟨m, a, h, h.afterCall_eq r⟩
  · refine .inr ⟨fun m a hcall => h ⟨m, a, hcall⟩, ?_⟩
    rw [afterCall]
    split
    next r' hr' =>
      obtain ⟨m, a, hm, hv, ha, -⟩ := result_withAddress_eq_ok_iff.mp hr'
      exact absurd ⟨m, a, hm, hv, ha⟩ h
    next => rfl

/-- A slot holds an address, or what it held before any of the calls, none of which then
resolved it. -/
theorem address_afterCalls (r : Record) (calls : List (Json × Json)) (m : Module) :
    (∃ a, (r.afterCalls calls).address m = some a ∧ IsAddress a) ∨
      (r.afterCalls calls).address m = r.address m ∧ ∀ call ∈ calls, ∀ a, ¬Resolves call m a := by
  induction calls generalizing r with
  | nil => exact .inr ⟨rfl, by simp⟩
  | cons call calls ih =>
      rw [afterCalls_cons, List.forall_mem_cons]
      obtain haddress | ⟨hsame, hno⟩ := ih (r.afterCall call)
      · exact .inl haddress
      · -- The later calls leave the slot alone, so it is as this call left it.
        rw [hsame]
        obtain ⟨n, a, hcall, hafter⟩ | ⟨hnone, hafter⟩ := afterCall_cases r call
        · rw [hafter]
          by_cases hn : m = n
          · subst hn
            exact .inl ⟨a, r.address_setAddress_self m a, hcall.2.2⟩
          · refine .inr ⟨r.address_setAddress_of_ne a hn, fun b hb => ?_, hno⟩
            cases hb.1.symm.trans hcall.1
            exact hn rfl
        · rw [hafter]
          exact .inr ⟨rfl, hnone m, hno⟩

theorem IsProper.address_ne {r : Record} (h : r.IsProper) (m : Module) :
    r.address m ≠ some "" := by
  have hhome : m.home ∈ objectSections := by
    cases m <;> decide
  exact isProper_sectionValues_iff.mp ((forall_mem_values.mp h).1 m.home hhome) m rfl

end Record

namespace Deployment

open Rules Record

variable {raw p : Json} {r : Record} {env : Option String} {s : Step}

/-- What is under a slot's field in a message is what the slot holds. -/
theorem address_of_get? {m : Module} {v : Json}
    (h : (r.sectionJson s.message).get? m.field = some v) :
    m.home = s.message ∧ ∃ a, v = .str a ∧ r.address m = some a := by
  rw [get?_sectionJson] at h
  split at h
  next hm =>
    obtain ⟨a, ha, rfl⟩ := Option.map_eq_some_iff.mp h
    exact ⟨hm, a, rfl, ha⟩
  next => cases h

/-- Read a record, call for addresses to be resolved in it, and ask for the message of a
step. Under the field of a slot there is an address in the message, if anything; only under
that of the collateral there may be a text that is no address, never the empty one, if it
was read there and no call resolved the collateral. -/
theorem addresses_of_message {calls : List (Json × Json)} (hr : Record.ofJson raw = .ok r)
    (hp : ((r.afterCalls calls).stepMessage env s).result = .ok p) :
    (∀ m : Module, m ≠ .eligibleCollateral → ∀ v, p.get? m.field = some v →
      ∃ a, v = .str a ∧ IsAddress a) ∧
    ∀ v, p.get? Module.eligibleCollateral.field = some v →
      ∃ a, v = .str a ∧ a ≠ "" ∧ (r.afterCalls calls).address .eligibleCollateral = some a ∧
        (IsAddress a ∨ r.address .eligibleCollateral = some a ∧
          ∀ call ∈ calls, ∀ b, ¬Resolves call .eligibleCollateral b) := by
  have hcheck := exists_result_stepMessage_iff.mp ⟨p, hp⟩
  cases hp.symm.trans (result_stepMessage hcheck)
  constructor
  · intro m hm v hv
    obtain ⟨hhome, a, rfl, ha⟩ := address_of_get? hv
    have hneeded := Step.mem_requirements_iff.mpr ⟨hhome, hm⟩
    obtain ⟨b, hb, haddress⟩ := isAddress_of_check hcheck m hneeded
    cases ha.symm.trans hb
    exact ⟨a, rfl, haddress⟩
  · intro v hv
    obtain ⟨-, a, rfl, ha⟩ := address_of_get? hv
    obtain ⟨b, hb, haddress⟩ | ⟨hsame, hno⟩ := address_afterCalls r calls .eligibleCollateral
    · cases ha.symm.trans hb
      exact ⟨a, rfl, haddress.1, ha, .inl haddress⟩
    · have hloaded := hsame.symm.trans ha
      refine ⟨a, rfl, ?_, ha, .inr ⟨hloaded, hno⟩⟩
      rintro rfl
      exact (isProper_of_ofJson hr).address_ne .eligibleCollateral hloaded

/-- A record with a blank in the collateral, all else being there. -/
def torn : Record :=
  { insured with engine := { insured.engine with eligibleCollateral := some "a b" } }

theorem ofJson_toJson_torn : Record.ofJson torn.toJson = .ok torn := by
  refine Record.ofJson_toJson ?_
  change ∀ value ∈ torn.values, value.2.IsProper
  decide

/-- The fee pool is resolved; the collateral is not, as the one call about it fails. -/
theorem addresses_of_message_of_torn :
    ∃ p, ((torn.afterCalls [(.str "fee_pool", .str "pool"),
        (.str "eligible_collateral", .str " ")]).stepMessage (some "main") .engine).result = .ok p ∧
      (∀ m : Module, m ≠ .eligibleCollateral → ∀ v, p.get? m.field = some v →
        ∃ a, v = .str a ∧ IsAddress a) ∧
      p.get? "eligible_collateral" = some (.str "a b") := by
  obtain ⟨p, hp, hcollateral⟩ :
      ∃ p, ((torn.afterCalls [(.str "fee_pool", .str "pool"),
          (.str "eligible_collateral", .str " ")]).stepMessage (some "main") .engine).result =
            .ok p ∧ p.get? "eligible_collateral" = some (.str "a b") :=
    ⟨_, rfl, rfl⟩
  exact ⟨p, hp, (addresses_of_message ofJson_toJson_torn hp).1, hcollateral⟩

/-- The blank is sent: it was read, and no step looks at the collateral. -/
theorem not_isAddress_of_message :
    ¬∀ (raw : Json) (r : Record) (calls : List (Json × Json)) (env : Option String) (s : Step)
      (p : Json), Record.ofJson raw = .ok r →
        ((r.afterCalls calls).stepMessage env s).result = .ok p →
        ∀ (m : Module) (v : Json), p.get? m.field = some v → ∃ a, v = .str a ∧ IsAddress a := by
  intro h
  obtain ⟨a, ha, haddress⟩ := h torn.toJson torn [] (some "main") .engine _ ofJson_toJson_torn rfl
    .eligibleCollateral (.str "a b") rfl
  cases ha
  revert haddress
  decide

end Deployment

end PerpRollout
