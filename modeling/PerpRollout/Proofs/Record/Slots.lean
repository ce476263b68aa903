import PerpRollout.Proofs.Check
import PerpRollout.Proofs.Outcome
import PerpRollout.Record.Address

/-!
# Resolving address slots

A slot takes any address (`IsAddress`). Resolving a module succeeds on exactly
these texts and then sets the slot (`Record.result_resolve_eq_ok_iff`), so a
sequence of resolutions is read through `Record.setAll`, which sets slots one after
the other. Sets of different slots commute and a later set of a slot covers an
earlier one; `setAll_setAddress` says both at once for a whole sequence, and
`setAll_congr` that a sequence counts only by what it sets each slot to.
-/

namespace PerpRollout

namespace Module

theorem parse_eq_ok_iff {v : Json} {m : Module} :
    parse v = .ok m ↔ ofSpelling? v.plain = some m := by
  unfold parse
  split
  next m' h => simp [h]
  next h => simp [h]

/-- A module is found under its own name. -/
@[simp] theorem parse_name (m : Module) : parse (.str m.name) = .ok m := by
  rw [parse_eq_ok_iff]
  cases m <;> decide

theorem parse_eq_error {v : Json} {e : Failure} (h : parse v = .error e) :
    ofSpelling? v.plain = none ∧ e = .about v .unknownModule := by
  unfold parse at h
  split at h
  · cases h
  next hnone =>
    cases h
    exact ⟨hnone, rfl⟩

end Module

namespace Record

/-- Resolving succeeds exactly on an address, and sets the slot to it. -/
theorem result_resolve_eq_ok_iff {r r' : Record} {m : Module} {v : Json} :
    (r.resolve m v).result = .ok r' ↔ ∃ a, v = .str a ∧ IsAddress a ∧ r' = r.setAddress m a := by
  have same (a : String) :
      (if r.address m = some a then r else r.setAddress m a) = r.setAddress m a := by
    split
    next h => exact (setAddress_eq_self h).symm
    next => rfl
  unfold resolve
  split
  next a h =>
    rw [within_eq_ok_iff, Check.address_eq_ok_iff] at h
    obtain ⟨rfl, ha⟩ := h
    simp only [same]
    constructor
    · intro hr
      cases hr
      exact ⟨a, rfl, ha, rfl⟩
    · intro h
      rcases h with ⟨a', hv, -, rfl⟩
      cases hv
      rfl
  next e h =>
    constructor
    · intro hr
      cases hr
    · intro h
      rcases h with ⟨a, rfl, ha, -⟩
      rw [within_eq_ok_iff.mpr (Check.address_eq_ok_iff.mpr ⟨rfl, ha⟩)] at h
      cases h

/-- What is refused is not an address, and is told with the slot of the module. -/
theorem result_resolve_eq_error {r : Record} {m : Module} {v : Json} {e : Failure}
    (h : (r.resolve m v).result = .error e) :
    (∀ a, v = .str a → ¬ IsAddress a) ∧ ∃ fault, e = .invalid ⟨m.path, none, .fault fault⟩ := by
  unfold resolve at h
  split at h
  · cases h
  next e' h' =>
    cases h
    exact Check.within_address_eq_error h'

theorem result_withAddress_eq_ok_iff {r r' : Record} {module v : Json} :
    (r.withAddress module v).result = .ok r' ↔
      ∃ m a, Module.parse module = .ok m ∧ v = .str a ∧ IsAddress a ∧ r' = r.setAddress m a := by
  unfold withAddress
  simp only [Logged.result_bind_eq_ok_iff, Logged.result_liftM]
  constructor
  · intro h
    rcases h with ⟨m, hm, h⟩
    obtain ⟨a, hv, ha, hr⟩ := result_resolve_eq_ok_iff.mp h
    exact ⟨m, a, hm, hv, ha, hr⟩
  · intro h
    rcases h with ⟨m, a, hm, hv, ha, hr⟩
    exact ⟨m, hm, result_resolve_eq_ok_iff.mpr ⟨a, hv, ha, hr⟩⟩

theorem withAddress_name (r : Record) (m : Module) (v : Json) :
    r.withAddress (.str m.name) v = r.resolve m v := by
  rw [withAddress, Module.parse_name]
  rfl

theorem setAddress_comm (r : Record) {m n : Module} (h : m ≠ n) (a b : String) :
    (r.setAddress m a).setAddress n b = (r.setAddress n b).setAddress m a := by
  cases m <;> cases n <;> first | rfl | exact absurd rfl h

/-- The record with slots set one after the other. -/
def setAll (r : Record) (steps : List (Module × String)) : Record :=
  steps.foldl (fun r step => r.setAddress step.1 step.2) r

@[simp] theorem setAll_nil (r : Record) : r.setAll [] = r := rfl

theorem setAll_cons (r : Record) (m : Module) (a : String) (steps : List (Module × String)) :
    r.setAll ((m, a) :: steps) = (r.setAddress m a).setAll steps := rfl

theorem setAll_append (r : Record) (steps more : List (Module × String)) :
    r.setAll (steps ++ more) = (r.setAll steps).setAll more :=
  List.foldl_append

theorem setAll_append_singleton (r : Record) (steps : List (Module × String)) (m : Module)
    (a : String) : r.setAll (steps ++ [(m, a)]) = (r.setAll steps).setAddress m a := by
  simp [setAll]

/-- A slot that is set in the end shows nothing of what was in it before. -/
theorem setAll_setAddress (r : Record) (m : Module) (a b : String)
    (steps : List (Module × String)) :
    ((r.setAddress m a).setAll steps).setAddress m b = (r.setAll steps).setAddress m b := by
  induction steps generalizing r with
  | nil => exact setAddress_setAddress_self r m a b
  | cons step steps ih =>
      obtain ⟨n, c⟩ := step
      rw [setAll_cons, setAll_cons]
      by_cases hn : n = m
      · subst hn
        rw [setAddress_setAddress_self]
      · rw [setAddress_comm r (Ne.symm hn), ih]

/-- A set of one slot can be put off until other slots are set. -/
theorem setAll_setAddress_of_not_mem (r : Record) {m : Module} (a : String)
    {steps : List (Module × String)} (h : m ∉ steps.map Prod.fst) :
    (r.setAddress m a).setAll steps = (r.setAll steps).setAddress m a := by
  induction steps generalizing r with
  | nil => rfl
  | cons step steps ih =>
      obtain ⟨n, c⟩ := step
      rw [List.map_cons, List.mem_cons, not_or] at h
      rw [setAll_cons, setAll_cons, setAddress_comm r h.1, ih _ h.2]

/-- Only the order within each slot counts, not how the slots are interleaved. -/
theorem setAll_congr {steps steps' : List (Module × String)}
    (h : ∀ m, steps.filter (·.1 = m) = steps'.filter (·.1 = m)) (r : Record) :
    r.setAll steps = r.setAll steps' := by
  induction steps generalizing r steps' with
  | nil =>
      have hnil : steps' = [] := by
        refine List.eq_nil_iff_forall_not_mem.mpr fun step hstep => ?_
        have hno := List.filter_eq_nil_iff.mp (h step.1).symm step hstep
        simp at hno
      rw [hnil]
  | cons step steps ih =>
      obtain ⟨m, a⟩ := step
      -- The first set of this slot in the other order can be brought to the front.
      have hfirst := h m
      rw [List.filter_cons_of_pos (by simp)] at hfirst
      obtain ⟨before, after, rfl, hbefore, -, hafter⟩ := List.filter_eq_cons_iff.mp hfirst.symm
      have hno : m ∉ before.map Prod.fst := by
        intro hm
        obtain ⟨step, hstep, rfl⟩ := List.mem_map.mp hm
        exact hbefore step hstep (by simp)
      have hrest : ∀ n, steps.filter (·.1 = n) = (before ++ after).filter (·.1 = n) := by
        intro n
        by_cases hn : m = n
        · subst hn
          rw [List.filter_append, List.filter_eq_nil_iff.mpr hbefore, List.nil_append, hafter]
        · have hn' := h n
          rw [List.filter_append, List.filter_cons_of_neg (by simpa using hn),
            List.filter_cons_of_neg (by simpa using hn)] at hn'
          rw [List.filter_append, hn']
      rw [setAll_cons, setAll_append, setAll_cons, ← setAll_setAddress_of_not_mem r a hno,
        ← setAll_append, ih hrest]

/-- Resolves modules one after the other. -/
def resolveAll (r : Record) (steps : List (Module × String)) : Logged Record :=
  steps.foldlM (fun r step => r.withAddress (.str step.1.name) (.str step.2)) r

theorem resolveAll_cons (r : Record) (m : Module) (a : String) (steps : List (Module × String)) :
    r.resolveAll ((m, a) :: steps) = r.resolve m (.str a) >>= fun r => r.resolveAll steps := by
  rw [← withAddress_name]
  exact List.foldlM_cons

/-- A sequence of resolutions succeeds when each text is an address, and then
sets the slots one after the other. -/
theorem result_resolveAll_eq_ok_iff {r r' : Record} {steps : List (Module × String)} :
    (r.resolveAll steps).result = .ok r' ↔
      (∀ step ∈ steps, IsAddress step.2) ∧ r' = r.setAll steps := by
  induction steps generalizing r with
  | nil =>
      constructor
      · intro h
        cases h
        exact ⟨by simp, rfl⟩
      · intro h
        rcases h with ⟨-, rfl⟩
        rfl
  | cons step steps ih =>
      obtain ⟨m, a⟩ := step
      rw [resolveAll_cons, Logged.result_bind_eq_ok_iff, List.forall_mem_cons, setAll_cons]
      constructor
      · intro h
        rcases h with ⟨mid, hmid, h⟩
        obtain ⟨a', ha, hok, rfl⟩ := result_resolve_eq_ok_iff.mp hmid
        cases ha
        obtain ⟨hsteps, hr⟩ := ih.mp h
        exact ⟨⟨hok, hsteps⟩, hr⟩
      · intro h
        rcases h with ⟨⟨hok, hsteps⟩, hr⟩
        refine ⟨r.setAddress m a, ?_, ih.mpr ⟨hsteps, hr⟩⟩
        exact result_resolve_eq_ok_iff.mpr ⟨a, rfl, hok, rfl⟩

end Record

end PerpRollout
