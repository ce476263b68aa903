import PerpRollout.Proofs.Plan
import PerpRollout.Proofs.Record.Normal

/-!
# The message of a step

A step sends a section of the record. What is sent is read back as this section
(`InitMessage.ofJson_sectionJson_iff`), holds no null, and holds the address of every module
that the step needs; and it is sent exactly when a check of the step finds nothing
(`message_agrees_with_check`). Otherwise the same lines and the same failure come from
validating the record and from asking for the message.
-/

namespace PerpRollout

/-- A message, as the section of a record that it is. -/
inductive InitMessage where
  | priceFeed (p : PriceFeed)
  | insuranceFund
  | engine (e : Engine)
  | vamm (v : Vamm)
  deriving DecidableEq, Repr

namespace InitMessage

/-- The message of a step with these field values. -/
def ofData : Step → List (String × Datum) → InitMessage
  | .pricefeed, data => .priceFeed (.ofData data)
  | .insuranceFund, _ => .insuranceFund
  | .engine, data => .engine (.ofData data)
  | .vamm, data => .vamm (.ofData data)

/-- The section of a record that is the message of a step. -/
def ofRecord (r : Record) : Step → InitMessage
  | .pricefeed => .priceFeed r.priceFeed
  | .insuranceFund => .insuranceFund
  | .engine => .engine r.engine
  | .vamm => .vamm r.vamm

/-- Reads the message of a step. -/
def ofJson (s : Step) (raw : Json) : Except Failure InitMessage := do
  return ofData s (← s.message.read raw)

/-- The values of the fields, in the order they are declared. -/
def values : InitMessage → List (String × Datum)
  | .priceFeed p => p.values
  | .insuranceFund => []
  | .engine e => e.values
  | .vamm v => v.values

open Record Section Datum

variable {r : Record} {s : Step} {raw : Json} {data : List (String × Datum)}

/-! ## Messages are read back -/

theorem mem_objectSections (s : Step) : s.message ∈ objectSections := by
  cases s <;> decide

theorem values_ofRecord (r : Record) (s : Step) :
    (ofRecord r s).values = r.sectionValues s.message := by
  cases s <;> rfl

theorem stores_ofData (h : s.message.read raw = .ok data) :
    s.message.Stores raw (ofData s data).values := by
  cases s with
  | pricefeed => exact PriceFeed.stores_ofData h
  | insuranceFund => exact .nil
  | engine => exact Engine.stores_ofData h
  | vamm => exact Vamm.stores_ofData h

theorem ofData_eq_ofRecord_iff :
    ofData s data = ofRecord r s ↔ (ofData s data).values = (ofRecord r s).values := by
  refine ⟨congrArg values, fun h => ?_⟩
  cases s with
  | pricefeed => exact congrArg priceFeed (PriceFeed.values_injective h)
  | insuranceFund => rfl
  | engine => exact congrArg engine (Engine.values_injective h)
  | vamm => exact congrArg vamm (Vamm.values_injective h)

/-- What is written of a section is read back as the section, unless it holds the empty text
for an address. -/
theorem ofJson_sectionJson_iff :
    ofJson s (r.sectionJson s.message) = .ok (ofRecord r s) ↔
      ∀ value ∈ r.sectionValues s.message, value.2.IsProper := by
  have hfits := fits_sectionValues r (mem_objectSections s)
  rw [sectionJson_eq r (mem_objectSections s)]
  constructor
  · intro h
    obtain ⟨data, hread, h⟩ := bind_eq_ok_iff.mp h
    have hvalues := ofData_eq_ofRecord_iff.mp (Except.ok.inj h)
    rw [← values_ofRecord, ← hvalues]
    exact isProper_of_stores (stores_ofData hread)
  · intro hproper
    have hnone := violations_eq_nil_iff.mpr (admits_written hfits hproper)
    obtain ⟨data, hread⟩ :=
      (reports_read s.message (isLegible_written hfits hproper)).exists_ok_iff.mpr hnone
    refine bind_eq_ok_iff.mpr ⟨data, hread, congrArg Except.ok ?_⟩
    rw [ofData_eq_ofRecord_iff, values_ofRecord]
    exact stores_unique (stores_ofData hread) (stores_written hfits hproper)

theorem ne_null_of_mem_written {values : List (String × Datum)} {member : String × Json}
    (h : member ∈ written values) : member.2 ≠ .null := by
  obtain ⟨d, -, hv⟩ := mem_written_iff.mp h
  obtain ⟨n, -, hv⟩ | ⟨s, hv⟩ := json?_cases hv <;> simp [hv]

end InitMessage

/-- The addresses of a section are what the slots in it hold. -/
theorem Record.address_mem_sectionValues_iff {r : Record} {s : Section} {name : String}
    {a : Option String} :
    (name, Datum.address a) ∈ r.sectionValues s ↔
      ∃ m : Module, m.home = s ∧ m.field = name ∧ r.address m = a := by
  constructor
  · intro h
    cases s with
    | initialAssets => cases h
    | insuranceFund => cases h
    | priceFeed =>
        obtain ⟨rfl, rfl⟩ : name = "oracle_hub_contract" ∧ a = r.priceFeed.oracleHub := by
          simpa [sectionValues, PriceFeed.values] using h
        exact ⟨.oracleHub, rfl, rfl, rfl⟩
    | engine =>
        obtain ⟨rfl, rfl⟩ | ⟨rfl, rfl⟩ | ⟨rfl, rfl⟩ :
            (name = "insurance_fund" ∧ a = r.engine.insuranceFund) ∨
              (name = "fee_pool" ∧ a = r.engine.feePool) ∨
              (name = "eligible_collateral" ∧ a = r.engine.eligibleCollateral) := by
          simpa [sectionValues, Engine.values] using h
        · exact ⟨.insuranceFund, rfl, rfl, rfl⟩
        · exact ⟨.feePool, rfl, rfl, rfl⟩
        · exact ⟨.eligibleCollateral, rfl, rfl, rfl⟩
    | vamm =>
        obtain ⟨rfl, rfl⟩ : name = "pricefeed" ∧ a = r.vamm.pricefeed := by
          simpa [sectionValues, Vamm.values] using h
        exact ⟨.pricefeed, rfl, rfl, rfl⟩
  · rintro ⟨m, rfl, rfl, rfl⟩
    cases m <;>
      simp [Module.home, Module.field, Module.name, sectionValues, address, PriceFeed.values,
        Engine.values, Vamm.values]

/-- The one text that is not proper for an address is the empty one. -/
theorem Record.isProper_sectionValues_iff {r : Record} {s : Section} :
    (∀ value ∈ r.sectionValues s, value.2.IsProper) ↔
      ∀ m : Module, m.home = s → r.address m ≠ some "" := by
  constructor
  · intro h m hm ha
    exact h _ (address_mem_sectionValues_iff.mpr ⟨m, hm, rfl, ha⟩) rfl
  · rintro h ⟨name, d⟩ hvalue rfl
    obtain ⟨m, hm, -, ha⟩ := address_mem_sectionValues_iff.mp hvalue
    exact h m hm ha

namespace Deployment

open Rules InitMessage

variable {r : Record} {env : Option String} {s : Step}

/-! ## What a check of the step finds -/

/-- What a step needs is there when nothing is found. -/
theorem isAddress_of_check (h : check r env (.step s) = .ok []) :
    ∀ m ∈ s.requirements, ∃ a, r.address m = some a ∧ IsAddress a := by
  intro m hm
  obtain ⟨-, hobeys⟩ := (check_eq_nil_iff rfl).mp h
  exact hobeys (.slot m) ⟨s, List.mem_singleton_self s, hm⟩

/-- All that can keep a message from being read back as it was is the empty text for the
collateral. -/
theorem ofJson_message_iff (h : check r env (.step s) = .ok []) :
    InitMessage.ofJson s (r.sectionJson s.message) = .ok (.ofRecord r s) ↔
      (s = .engine → r.address .eligibleCollateral ≠ some "") := by
  rw [ofJson_sectionJson_iff, Record.isProper_sectionValues_iff]
  constructor
  · rintro hslots rfl
    exact hslots .eligibleCollateral rfl
  · intro hcollateral m hm ha
    by_cases hmodule : m = .eligibleCollateral
    · subst hmodule
      refine hcollateral ?_ ha
      cases s <;> first | rfl | cases hm
    · have hneeded := Step.mem_requirements_iff.mpr ⟨hm, hmodule⟩
      obtain ⟨a, ha', haddress⟩ := isAddress_of_check h m hneeded
      cases ha.symm.trans ha'
      exact haddress.1 rfl

theorem ofJson_message_of_built (built : r.Built) :
    InitMessage.ofJson s (r.sectionJson s.message) = .ok (.ofRecord r s) :=
  ofJson_sectionJson_iff.mpr
    ((Record.forall_mem_values.mp built.isProper).1 _ (mem_objectSections s))

/-- Nothing is found for all steps together exactly when nothing is found for each. -/
theorem check_everything_eq_nil_iff :
    check r env .everything = .ok [] ↔ ∀ t : Step, check r env (.step t) = .ok [] := by
  have hstep (t : Step) : check r env (.step t) = .ok [] ↔
      (∀ rule ∈ template env r, rule = .ok []) ∧ ∀ rule ∈ ofStep env r t, rule = .ok [] := by
    rw [check_eq_gather rfl, gather_eq_nil_iff, List.forall_mem_append, List.flatMap_singleton]
  rw [check_eq_gather rfl, gather_eq_nil_iff, List.forall_mem_append, List.forall_mem_flatMap]
  constructor
  · rintro ⟨htemplate, hsteps⟩ t
    exact (hstep t).mpr ⟨htemplate, hsteps t t.mem_order⟩
  · intro h
    exact ⟨((hstep .engine).mp (h .engine)).1, fun t _ => ((hstep t).mp (h t)).2⟩

/-- A check of a step, validation for it and its message agree, however the step is named.
If nothing is found, the record is valid and the message is the section of the step: it is
read back as that section, holds no null, and holds the address of every module that the
step needs. If something is found, validating and asking for the message both log a warning
about each finding, in order, and fail with the first. Nothing is found for all steps
together exactly when each step has a message.

A section with the empty text for the collateral is not read back as it was; no record that
comes of reading and resolving has one. -/
theorem message_agrees_with_check (r : Record) (env : Option String) (s : Step) :
    (∀ v, Step.parse v = .ok s → check r env (.named v) = check r env (.step s) ∧
      validate r env (.named v) = validate r env (.step s) ∧
      r.message env v = r.stepMessage env s) ∧
    (check r env (.step s) = .ok [] → validate r env (.step s) = .pure r ∧
      ∃ members, r.stepMessage env s = .pure (.obj members) ∧
        (r.Built → InitMessage.ofJson s (.obj members) = .ok (.ofRecord r s)) ∧
        (InitMessage.ofJson s (.obj members) = .ok (.ofRecord r s) ↔
          (s = .engine → r.address .eligibleCollateral ≠ some "")) ∧
        (∀ member ∈ members, member.2 ≠ .null) ∧
        ∀ m ∈ s.requirements, ∃ a, r.address m = some a ∧
          Json.member? m.field members = some (.str a)) ∧
    (∀ first rest, check r env (.step s) = .ok (first :: rest) →
      validate r env (.step s) = ⟨(first :: rest).map warning, .error (.invalid first)⟩ ∧
      r.stepMessage env s = ⟨(first :: rest).map warning, .error (.invalid first)⟩) ∧
    (check r env .everything = .ok [] ↔
      ∀ t : Step, ∃ p, (r.stepMessage env t).result = .ok p) := by
  refine ⟨fun v hv => ?_, fun h => ?_, fun first rest h => ?_, ?_⟩
  · have hsteps : (Scope.named v).steps = (Scope.step s).steps := by
      rw [Scope.steps, hv]
      rfl
    have hcheck : check r env (.named v) = check r env (.step s) := check_congr hsteps
    refine ⟨hcheck, ?_, ?_⟩
    · rw [validate, validate, hcheck]
    · rw [Record.message, hv]
      rfl
  · have hsection := Record.sectionJson_eq r (mem_objectSections s)
    refine ⟨by rw [validate, h], Datum.written (r.sectionValues s.message), ?_, ?_, ?_,
      fun _ => ne_null_of_mem_written, fun m hm => ?_⟩
    · rw [stepMessage_of_nil h, hsection]
    · rw [← hsection]
      exact ofJson_message_of_built
    · rw [← hsection]
      exact ofJson_message_iff h
    · obtain ⟨a, ha, -⟩ := isAddress_of_check h m hm
      have hslot := get?_slot r m
      rw [(Step.mem_requirements_iff.mp hm).1, hsection, ha] at hslot
      exact ⟨a, ha, hslot⟩
  · exact ⟨by rw [validate, h], stepMessage_of_cons h⟩
  · rw [check_everything_eq_nil_iff]
    exact forall_congr' fun t => exists_result_stepMessage_iff.symm

/-- The engine of this record can be sent; its market maker lacks the price feed. -/
theorem message_agrees_with_check_of_insured :
    (∃ members, insured.stepMessage (some "main") .engine = .pure (.obj members) ∧
      InitMessage.ofJson .engine (.obj members) = .ok (.engine insured.engine) ∧
      Json.member? "fee_pool" members = some (.str "fees")) ∧
    (∃ first, first.field = Module.pricefeed.path ∧
      insured.message (some "main") (.str " Vamm ") =
        ⟨[warning first], .error (.invalid first)⟩) := by
  constructor
  · obtain ⟨-, hsent, -⟩ := message_agrees_with_check insured (some "main") .engine
    obtain ⟨-, members, hp, -, hread, -, haddresses⟩ := hsent rfl
    obtain ⟨a, ha, hfees⟩ := haddresses .feePool (by decide)
    cases ha
    exact ⟨members, hp, hread.mpr (by decide), hfees⟩
  · obtain ⟨hnamed, -, hrefused, -⟩ := message_agrees_with_check insured (some "main") .vamm
    obtain ⟨first, hcheck, hfield⟩ :
        ∃ first, check insured (some "main") (.step .vamm) = .ok [first] ∧
          first.field = Module.pricefeed.path :=
      ⟨_, rfl, rfl⟩
    refine ⟨first, hfield, ?_⟩
    rw [(hnamed (.str " Vamm ") (by rfl)).2.2, (hrefused first [] hcheck).2]
    rfl

end Deployment

end PerpRollout
