import PerpRollout.Proofs.Plan
import PerpRollout.Proofs.Record.Normal

/-!
# What a step waits for, and what is found

The plan counts a module as missing when its slot holds nothing, and the rules of a step
ask for an address in the slot. Reading a record lets any text into a slot but the empty
one, so the two differ where a slot holds a text that is no address, and nowhere else
(`check_agrees_with_plan`). Resolving puts nothing but addresses into slots.
-/

namespace PerpRollout

namespace Record

theorem mem_missingFor_iff {r : Record} {s : Step} {m : Module} :
    m ∈ r.missingFor s ↔ m ∈ s.requirements ∧ r.address m = none := by
  simp [missingFor, isResolved]

theorem isReady_iff {r : Record} {s : Step} :
    r.isReady s = true ↔ ∀ m ∈ s.requirements, (r.address m).isSome := by
  simp [isReady, missingFor, isResolved, Option.isSome_iff_ne_none]

end Record

namespace Deployment

open Rules

variable {r : Record} {env : Option String} {s : Step}

/-- A slot holds an address when it holds something, and nothing else than one. -/
theorem exists_isAddress_iff {m : Module} :
    (∃ a ∈ r.address m, IsAddress a) ↔
      (r.address m).isSome ∧ ∀ a ∈ r.address m, IsAddress a := by
  cases r.address m <;> simp

theorem not_exists_isAddress_iff {m : Module} :
    (¬∃ a ∈ r.address m, IsAddress a) ↔
      r.address m = none ∨ ∃ a ∈ r.address m, ¬IsAddress a := by
  cases r.address m <;> simp

theorem obeys_slot_iff {m : Module} :
    (Place.slot m).Obeys r [s] ↔ (m ∈ s.requirements → ∃ a ∈ r.address m, IsAddress a) := by
  simp [Place.Obeys]

/-- Where a check of a step comes to findings, they are under the slots of the modules
that the plan calls missing and of those that hold no address. So, where the template
finds nothing and the reserves are not zero, the message of a step is given exactly if the
plan calls the step ready and what its slots hold are addresses. -/
theorem check_agrees_with_plan {found : List Invalid}
    (h : check r env (.step s) = .ok found) :
    (∀ m : Module, (∃ e ∈ found, e.field = m.path) ↔
      m ∈ r.missingFor s ∨ m ∈ s.requirements ∧ ∃ a ∈ r.address m, ¬IsAddress a) ∧
    (check r env .template = .ok [] →
      Numeral.value r.vamm.quoteReserve.toList ≠ 0 →
      Numeral.value r.vamm.baseReserve.toList ≠ 0 →
      ((∃ message, (r.stepMessage env s).result = .ok message) ↔
        r.isReady s = true ∧ ∀ m ∈ s.requirements, ∀ a ∈ r.address m, IsAddress a)) := by
  constructor
  · intro m
    obtain ⟨-, hlists⟩ := lists_of_check rfl h
    have hslot := hlists.mem_iff (.slot m)
    rw [obeys_slot_iff, Classical.not_imp, not_exists_isAddress_iff, and_or_left] at hslot
    rw [Record.mem_missingFor_iff]
    exact hslot
  · intro htemplate hquote hbase
    rw [exists_result_stepMessage_iff, check_eq_nil_iff_of_template htemplate hquote hbase rfl,
      List.forall_mem_singleton, Record.isReady_iff]
    simp only [exists_isAddress_iff, forall_and]

/-- A record with a blank where the fee pool should be, all else being there. -/
def spaced : Record :=
  { insured with engine := { insured.engine with feePool := some " " } }

theorem built_spaced : Record.Built spaced := by
  have hproper : spaced.IsProper := by
    change ∀ value ∈ spaced.values, value.2.IsProper
    decide
  exact .read (Record.ofJson_toJson hproper)

theorem check_agrees_with_plan_of_spaced :
    ∃ found, check spaced (some "main") (.step .engine) = .ok found ∧
      (∀ m : Module, (∃ e ∈ found, e.field = m.path) ↔ m = .feePool) ∧
      ∀ message, (spaced.stepMessage (some "main") .engine).result ≠ .ok message := by
  have hcheck : ∃ found, check spaced (some "main") (.step .engine) = .ok found := ⟨_, rfl⟩
  obtain ⟨found, hfound⟩ := hcheck
  obtain ⟨hfields, hmessage⟩ := check_agrees_with_plan hfound
  refine ⟨found, hfound, fun m => ?_, fun message h => ?_⟩
  · rw [hfields]
    cases m <;> decide
  · have haddresses := (hmessage rfl (by decide) (by decide)).mp ⟨message, h⟩
    revert haddresses
    decide

/-- The blank is found, and the plan does not call it missing: it says that the step is
ready, and there is no message. -/
theorem not_check_iff_missing :
    (¬∀ (r : Record) (env : Option String) (s : Step) (found : List Invalid), r.Built →
      check r env (.step s) = .ok found →
        ∀ m : Module, (∃ e ∈ found, e.field = m.path) ↔ m ∈ r.missingFor s) ∧
    ¬∀ (r : Record) (env : Option String) (s : Step), r.Built →
      check r env .template = .ok [] →
        Numeral.value r.vamm.quoteReserve.toList ≠ 0 →
        Numeral.value r.vamm.baseReserve.toList ≠ 0 →
        (r.isReady s = true ↔ ∃ message, (r.stepMessage env s).result = .ok message) := by
  constructor
  · intro h
    have hfees := h spaced (some "main") .engine _ built_spaced rfl .feePool
    have hmissing := hfees.mp ⟨_, List.mem_cons_self, rfl⟩
    revert hmissing
    decide
  · intro h
    have hready := h spaced (some "main") .engine built_spaced rfl (by decide) (by decide)
    obtain ⟨message, hmessage⟩ := hready.mp rfl
    cases hmessage

end Deployment

end PerpRollout
