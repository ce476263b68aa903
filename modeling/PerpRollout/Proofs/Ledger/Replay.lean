import Mathlib.Data.List.Induction
import Mathlib.Data.List.Nodup
import PerpRollout.Ledger.Store
import PerpRollout.Proofs.Record.Slots

/-!
# Recording addresses and replaying them

Recording succeeds exactly on what resolving takes (`result_record_eq_ok_iff`)
and adds one row, which the history of its environment shows last. A replay does
not go through that history: it takes the last address of each module only, in
the order in which the modules first occur. `setAll_latest` says that a record
comes out the same either way.
-/

namespace PerpRollout

namespace Ledger

theorem modules_setLatest (m : Module) (a : String) (steps : List (Module × String)) :
    (setLatest m a steps).map Prod.fst =
      if m ∈ steps.map Prod.fst then steps.map Prod.fst else steps.map Prod.fst ++ [m] := by
  induction steps with
  | nil => rfl
  | cons step steps ih =>
      obtain ⟨n, b⟩ := step
      by_cases hn : n = m
      · simp [setLatest, hn]
      · simp only [setLatest, if_neg hn, List.map_cons, ih, List.mem_cons, Ne.symm hn, false_or]
        split <;> rfl

theorem nodup_setLatest {m : Module} {a : String} {steps : List (Module × String)}
    (h : (steps.map Prod.fst).Nodup) : ((setLatest m a steps).map Prod.fst).Nodup := by
  rw [modules_setLatest]
  split
  next => exact h
  next hm =>
    rw [List.nodup_append]
    refine ⟨h, List.nodup_singleton m, ?_⟩
    intro x hx y hy heq
    rw [List.mem_singleton.mp hy] at heq
    exact hm (heq ▸ hx)

theorem mem_of_mem_setLatest {m : Module} {a : String} {steps : List (Module × String)}
    {x : Module × String} (h : x ∈ setLatest m a steps) : x = (m, a) ∨ x ∈ steps := by
  induction steps with
  | nil => exact .inl (List.mem_singleton.mp h)
  | cons step steps ih =>
      obtain ⟨n, b⟩ := step
      unfold setLatest at h
      split at h
      · rcases List.mem_cons.mp h with h | h
        · exact .inl h
        · exact .inr (List.mem_cons_of_mem _ h)
      · rcases List.mem_cons.mp h with h | h
        · exact .inr (by simp [h])
        · rcases ih h with h | h
          · exact .inl h
          · exact .inr (List.mem_cons_of_mem _ h)

/-- Setting the slot of a module in place of an earlier set of it comes to the
same as setting it in the end. -/
theorem setAll_setLatest (r : Record) (m : Module) (a : String)
    {steps : List (Module × String)} (h : (steps.map Prod.fst).Nodup) :
    r.setAll (setLatest m a steps) = (r.setAll steps).setAddress m a := by
  induction steps generalizing r with
  | nil => rfl
  | cons step steps ih =>
      obtain ⟨n, b⟩ := step
      rw [List.map_cons, List.nodup_cons] at h
      obtain ⟨hn, h⟩ := h
      unfold setLatest
      split
      next heq =>
        subst heq
        rw [Record.setAll_cons, Record.setAll_cons, Record.setAll_setAddress_of_not_mem r a hn,
          Record.setAll_setAddress]
      next => rw [Record.setAll_cons, Record.setAll_cons, ih _ h]

theorem latest_append_singleton (steps : List (Module × String)) (m : Module) (a : String) :
    latest (steps ++ [(m, a)]) = setLatest m a (latest steps) := by
  simp [latest]

theorem nodup_latest (steps : List (Module × String)) :
    ((latest steps).map Prod.fst).Nodup := by
  induction steps using List.reverseRecOn with
  | nil => exact .nil
  | append_singleton steps step ih =>
      rw [latest_append_singleton]
      exact nodup_setLatest ih

theorem mem_of_mem_latest {steps : List (Module × String)} {x : Module × String}
    (h : x ∈ latest steps) : x ∈ steps := by
  induction steps using List.reverseRecOn with
  | nil => exact h
  | append_singleton steps step ih =>
      rw [latest_append_singleton] at h
      rcases mem_of_mem_setLatest h with rfl | h
      · simp
      · exact List.mem_append_left _ (ih h)

/-- The last address of a module in a history. -/
def lastOf (m : Module) (steps : List (Module × String)) : Option String :=
  ((steps.filter fun step => step.1 = m).getLast?).map Prod.snd

theorem lastOf_append_singleton (n : Module) (steps : List (Module × String)) (m : Module)
    (a : String) :
    lastOf n (steps ++ [(m, a)]) = if m = n then some a else lastOf n steps := by
  unfold lastOf
  by_cases h : m = n <;> simp [List.filter_append, h]

/-- Of each module the last address is kept. -/
theorem lookup_latest (m : Module) (steps : List (Module × String)) :
    (latest steps).lookup m = lastOf m steps := by
  induction steps using List.reverseRecOn with
  | nil => rfl
  | append_singleton steps step ih =>
      obtain ⟨n, a⟩ := step
      rw [latest_append_singleton, lastOf_append_singleton]
      by_cases h : n = m
      · rw [h, if_pos rfl, lookup_setLatest_self]
      · rw [if_neg h, lookup_setLatest_of_ne (Ne.symm h), ih]

/-- The last address of each module makes of a record what the whole history
makes of it. -/
theorem setAll_latest (r : Record) (steps : List (Module × String)) :
    r.setAll (latest steps) = r.setAll steps := by
  induction steps using List.reverseRecOn with
  | nil => rfl
  | append_singleton steps step ih =>
      rw [latest_append_singleton, setAll_setLatest r step.1 step.2 (nodup_latest steps), ih]
      exact (Record.setAll_append_singleton r steps step.1 step.2).symm

/-- The record with an address put into each slot that there is one for; all else stays. -/
def fill (r : Record) (addresses : Module → Option String) : Record where
  priceFeed := { r.priceFeed with
    oracleHub := (addresses .oracleHub).or r.priceFeed.oracleHub }
  engine := { r.engine with
    insuranceFund := (addresses .insuranceFund).or r.engine.insuranceFund
    feePool := (addresses .feePool).or r.engine.feePool
    eligibleCollateral := (addresses .eligibleCollateral).or r.engine.eligibleCollateral }
  vamm := { r.vamm with pricefeed := (addresses .pricefeed).or r.vamm.pricefeed }
  assets := r.assets

/-- Of a history only the last address of each module counts. -/
theorem setAll_eq_fill (r : Record) (steps : List (Module × String)) :
    r.setAll steps = fill r fun m => lastOf m steps := by
  induction steps using List.reverseRecOn with
  | nil => rfl
  | append_singleton steps step ih =>
      obtain ⟨m, a⟩ := step
      rw [Record.setAll_append_singleton, ih]
      cases m <;> simp [fill, Record.setAddress, lastOf_append_singleton]

/-- The ledger replays addresses as a record resolves them. -/
theorem replay_eq_resolveAll (r : Record) (steps : List (Module × String)) :
    replay r steps = r.resolveAll steps := by
  induction steps generalizing r with
  | nil => rfl
  | cons step steps ih =>
      rw [Record.resolveAll_cons, ← funext ih]
      rfl

/-- The history of an environment shows the row that was added last. -/
theorem history_record (t : Tables) (environment other : String) (m : Module) (a : String) :
    (t.record other m a).2.history environment =
      t.history environment ++ if other = environment then [(m, a)] else [] := by
  simp only [Tables.record, Tables.history, List.filter_append, List.map_append]
  by_cases h : other = environment <;> simp [h]

theorem result_reach_eq_ok_iff {l : Ledger} {t : Tables} :
    l.reach.result = .ok t ↔ l.tables? = some t := by
  unfold reach
  cases l.tables? with
  | none => simp
  | some t' => simp [Logged.pure]

/-- The record with the addresses of the ledger is the one with the whole
history resolved on it. -/
theorem result_apply_eq_ok_iff {l : Ledger} {t : Tables} (reached : l.tables? = some t)
    {r r' : Record} {environment : String}
    (addresses : ∀ step ∈ t.history environment, IsAddress step.2) :
    (l.apply r environment).result = .ok r' ↔ r' = r.setAll (t.history environment) := by
  have hlatest : ∀ step ∈ latest (t.history environment), IsAddress step.2 :=
    fun step hstep => addresses step (mem_of_mem_latest hstep)
  have happly : (l.apply r environment).result =
      (replay r (latest (t.history environment))).result := by
    unfold apply latestOf history
    simp only [Logged.result_bind, result_reach_eq_ok_iff.mpr reached]
    rfl
  rw [happly, replay_eq_resolveAll, Record.result_resolveAll_eq_ok_iff, setAll_latest]
  exact and_iff_right hlatest

end Ledger

namespace Store

/-- Recording succeeds exactly for an environment that may be written to, a
module and an address, while the tables are there; it adds one row. -/
theorem result_record_eq_ok_iff {s : Store} {environment : String} {module address : Json}
    {l l' : Ledger} {id : Nat} :
    (s.record environment module address l).result = .ok (id, l') ↔
      ∃ m a t, s.permit environment = .ok () ∧ Module.parse module = .ok m ∧
        address = .str a ∧ IsAddress a ∧ l.tables? = some t ∧
        id = (t.record environment m a).1 ∧ l' = ⟨some (t.record environment m a).2⟩ := by
  unfold record
  simp only [Logged.result_bind_eq_ok_iff, Logged.result_liftM, within_eq_ok_iff,
    Check.address_eq_ok_iff, Ledger.result_reach_eq_ok_iff]
  constructor
  · intro h
    rcases h with ⟨_, hpermit, m, hm, a, ⟨ha, hok⟩, t, ht, _, -, h⟩
    cases h
    exact ⟨m, a, t, hpermit, hm, ha, hok, ht, rfl, rfl⟩
  · intro h
    rcases h with ⟨m, a, t, hpermit, hm, ha, hok, ht, rfl, rfl⟩
    exact ⟨(), hpermit, m, hm, a, ⟨ha, hok⟩, t, ht, (), rfl, rfl⟩

end Store

end PerpRollout
