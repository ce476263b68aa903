import PerpRollout.Proofs.Record.Slots
import PerpRollout.Proofs.Rules.Verdict

/-!
# What resolving an address takes from a check

Once a slot holds an address, a check finds what it found before, in the same order, but for
what it found of that slot (`check_withAddress`).

No template rule looks at a slot, and no rule but the one for a slot tells of it. So it is
the same to take what is told of a slot out of the findings, or out of those of every rule
that is put together for them (`gather_map_besides`); and of a rule that cannot tell of the
slot nothing is taken (`Finds.map_besides`).
-/

namespace PerpRollout.Rules

open Place

/-- The findings that are not about the slot of the module. -/
def besides (m : Module) (found : List Invalid) : List Invalid :=
  found.filter fun e => e.field ≠ m.path

variable {env : Option String} {rules : List Findings} {legible : Prop}
  {broken : Place → Prop} {m : Module} {a : String}

/-! ## Findings without those of a slot -/

theorem gather_map_besides (m : Module) (rules : List Findings) :
    gather (rules.map (Except.map (besides m))) = (gather rules).map (besides m) := by
  induction rules with
  | nil => rfl
  | cons rule rules ih =>
      rw [List.map_cons, gather, gather, ih]
      cases rule with
      | error e => rfl
      | ok found =>
          cases gather rules with
          | error e => rfl
          | ok others => exact congrArg Except.ok (List.filter_append found others).symm

theorem Lists.besides_eq_self {found : List Invalid} (h : Lists env found broken)
    (hm : ¬broken (.slot m)) : besides m found = found := by
  refine List.filter_eq_self.mpr fun e he => ?_
  rw [decide_eq_true_eq]
  exact fun hfield => hm ((h.mem_iff (.slot m)).mp ⟨e, he, hfield⟩)

/-- From rules that do not tell of the slot nothing is taken. -/
theorem Finds.map_besides (h : Finds env rules legible broken) (hm : ¬broken (.slot m)) :
    (gather rules).map (besides m) = gather rules := by
  by_cases hl : legible
  · obtain ⟨found, hfound, hlists⟩ := h.lists hl
    rw [hfound]
    exact congrArg Except.ok (hlists.besides_eq_self hm)
  · obtain ⟨e, he, -⟩ := h.tooLong hl
    rw [he]
    rfl

/-! ## The rules for a record and for one with a slot set -/

theorem template_setAddress (env : Option String) (r : Record) (m : Module) (a : String) :
    template env (r.setAddress m a) = template env r := by
  cases m <;> rfl

theorem map_besides_template (env : Option String) (r : Record) (m : Module) :
    (gather (template env r)).map (besides m) = gather (template env r) :=
  (finds_template env r).map_besides (by simp [Obeys])

/-- The rule for a slot tells of this slot only. -/
theorem map_besides_addressRule_self (env : Option String) (r : Record) (m : Module) :
    (addressRule env r m).map (besides m) = .ok [] := by
  rw [addressRule]
  cases h : Check.address (r.slotJson m) m.field with
  | ok a => rfl
  | error e =>
      obtain ⟨fault, rfl⟩ := Check.address_eq_error h
      simp [finding, Except.map, besides]

theorem map_besides_addressRule_of_ne (env : Option String) (r : Record) {n : Module}
    (h : n ≠ m) : (addressRule env r n).map (besides m) = addressRule env r n := by
  rw [← gather_singleton (addressRule env r n)]
  exact (finds_addressRule env r n).map_besides fun hn => h (slot.inj hn.1).symm

theorem addressRule_eq_nil {r : Record} (h : r.address m = some a) (ha : IsAddress a) :
    addressRule env r m = .ok [] := by
  rw [addressRule, (slotJson_eq_str_iff r m a).mpr h, Check.address_eq_ok_iff.mpr ⟨rfl, ha⟩]
  rfl

theorem addressRule_setAddress (env : Option String) (r : Record) (ha : IsAddress a)
    (n : Module) :
    addressRule env (r.setAddress m a) n = (addressRule env r n).map (besides m) := by
  by_cases h : n = m
  · subst h
    rw [addressRule_eq_nil (r.address_setAddress_self n a) ha, map_besides_addressRule_self]
  · rw [map_besides_addressRule_of_ne env r h, addressRule, addressRule, Record.slotJson,
      Record.slotJson, Record.address_setAddress_of_ne r a h]

theorem curveRule_setAddress (env : Option String) (r : Record) (m : Module) (a : String) :
    curveRule env (r.setAddress m a).vamm = (curveRule env r.vamm).map (besides m) := by
  have hcurve : curveRule env (r.setAddress m a).vamm = curveRule env r.vamm := by
    cases m <;> rfl
  rw [hcurve, ← gather_singleton (curveRule env r.vamm)]
  exact ((finds_curveRule env r.vamm).map_besides (by simp [BrokenCurve])).symm

theorem ofStep_setAddress (env : Option String) (r : Record) (ha : IsAddress a) (s : Step) :
    ofStep env (r.setAddress m a) s = (ofStep env r s).map (Except.map (besides m)) := by
  have haddresses : s.requirements.map (addressRule env (r.setAddress m a)) =
      (s.requirements.map (addressRule env r)).map (Except.map (besides m)) := by
    rw [List.map_map]
    exact List.map_congr_left fun n _ => addressRule_setAddress env r ha n
  rw [ofStep, ofStep, List.map_append, haddresses, curveRule_setAddress]
  split <;> rfl

/-! ## The check -/

/-- Without steps a check looks at no slot. -/
theorem check_template_setAddress (env : Option String) (r : Record) (m : Module) (a : String) :
    check (r.setAddress m a) env .template = check r env .template := by
  simp only [check, Scope.steps, template_setAddress, ok_bind, List.flatMap_nil]

theorem check_setAddress (env : Option String) (r : Record) (ha : IsAddress a) (scope : Scope) :
    check (r.setAddress m a) env scope = (check r env scope).map (besides m) := by
  cases hsteps : scope.steps with
  | error e =>
      -- No step is meant: after the template, where nothing is new, the check fails.
      rw [check, check, template_setAddress, hsteps]
      cases gather (template env r) <;> rfl
  | ok steps =>
      have hrules : steps.flatMap (ofStep env (r.setAddress m a)) =
          (steps.flatMap (ofStep env r)).map (Except.map (besides m)) := by
        rw [List.map_flatMap]
        exact congrArg (fun f => steps.flatMap f) (funext (ofStep_setAddress env r ha))
      rw [check_eq_gather hsteps, check_eq_gather hsteps, template_setAddress, hrules,
        ← gather_map_besides, List.map_append, gather_append, gather_append,
        gather_map_besides m (template env r), map_besides_template]

/-- Resolving a module to an address succeeds, and takes from every check what it found of
the module's slot, and nothing else; also when the slot held something before. A check by
the template alone is the same as before. -/
theorem check_withAddress (r : Record) {module address : Json} {name : String}
    (hm : Module.parse module = .ok m) (ha : Check.address address name = .ok a) :
    ∃ r', (r.withAddress module address).result = .ok r' ∧
      (∀ env scope, check r' env scope =
        (check r env scope).map (List.filter fun e => e.field ≠ m.path)) ∧
      ∀ env, check r' env .template = check r env .template := by
  obtain ⟨hv, ha⟩ := Check.address_eq_ok_iff.mp ha
  have hresult : (r.withAddress module address).result = .ok (r.setAddress m a) :=
    Record.result_withAddress_eq_ok_iff.mpr ⟨m, a, hm, hv, ha, rfl⟩
  exact ⟨r.setAddress m a, hresult, fun env scope => check_setAddress env r ha scope,
    fun env => check_template_setAddress env r m a⟩

/-- Of what is found of a record that lacks addresses and has faults besides, one finding
is gone when the fee pool is resolved. -/
theorem check_withAddress_of_faulty :
    ∃ found r', check faulty (some "main") .everything = .ok found ∧
      (found.filter fun e => e.field = Module.feePool.path).length = 1 ∧ found.length = 15 ∧
      (faulty.withAddress (.str " FEE_POOL ") (.str "fees")).result = .ok r' ∧
      check r' (some "main") .everything =
        .ok (found.filter fun e => e.field ≠ Module.feePool.path) := by
  have hm : Module.parse (.str " FEE_POOL ") = .ok .feePool := by rfl
  have ha : Check.address (.str "fees") "address" = .ok "fees" := by rfl
  obtain ⟨found, hfound⟩ : ∃ found, check faulty (some "main") .everything = .ok found :=
    ⟨_, rfl⟩
  obtain ⟨r', hr', hcheck, -⟩ := check_withAddress faulty hm ha
  refine ⟨found, r', hfound, ?_, ?_, hr', ?_⟩
  · cases hfound
    decide
  · cases hfound
    rfl
  · rw [hcheck, hfound]
    rfl

end PerpRollout.Rules
