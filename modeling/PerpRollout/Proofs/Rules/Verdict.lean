import PerpRollout.Proofs.Record.RoundTrip
import PerpRollout.Proofs.Rules.Steps

/-!
# What a check of a record says

The findings of a check are under the paths of exactly the places that are not as the
template and the steps in scope ask (`check_tells`). There are findings, or none, exactly
when the numbers of the record are legible; otherwise the check breaks off on a number
that has too many digits (`check_ok_iff`). `check_eq_nil_iff` is the case of a record
that nothing is wrong with.
-/

namespace PerpRollout.Rules

open Place

variable {r : Record} {env : Option String} {scope : Scope} {steps : List Step}

theorem check_eq_gather (hsteps : scope.steps = .ok steps) :
    check r env scope = gather (template env r ++ steps.flatMap (ofStep env r)) := by
  rw [check, hsteps, gather_append]
  rfl

/-- A check goes by the steps in scope, however they are named. -/
theorem check_congr {scope' : Scope} (h : scope.steps = scope'.steps) :
    check r env scope = check r env scope' := by
  rw [check, check, h]

variable (env) in
theorem check_eq_ok (hsteps : scope.steps = .ok steps) (hlegible : r.Legible steps) :
    ∃ found, check r env scope = .ok found ∧ Lists env found fun p => ¬p.Obeys r steps :=
  check_eq_gather hsteps ▸ (finds_rules env r steps).lists hlegible

variable (env) in
theorem check_eq_error (hsteps : scope.steps = .ok steps) (hlegible : ¬r.Legible steps) :
    ∃ e, check r env scope = .error e ∧ e.IsTooLong :=
  check_eq_gather hsteps ▸ (finds_rules env r steps).tooLong hlegible

/-- The findings that a check comes to. -/
theorem lists_of_check (hsteps : scope.steps = .ok steps) {found : List Invalid}
    (h : check r env scope = .ok found) :
    r.Legible steps ∧ Lists env found fun p => ¬p.Obeys r steps := by
  by_cases hlegible : r.Legible steps
  · obtain ⟨found', hfound, hlists⟩ := check_eq_ok env hsteps hlegible
    rw [hfound] at h
    cases h
    exact ⟨hlegible, hlists⟩
  · obtain ⟨e, he, -⟩ := check_eq_error env hsteps hlegible
    rw [he] at h
    cases h

theorem exists_steps_of_check {found : List Invalid} (h : check r env scope = .ok found) :
    ∃ steps, scope.steps = .ok steps := by
  obtain ⟨_, -, hrest⟩ := bind_eq_ok_iff.mp h
  obtain ⟨steps, hsteps, -⟩ := bind_eq_ok_iff.mp hrest
  exact ⟨steps, hsteps⟩

/-- A record that nothing is wrong with. -/
theorem check_eq_nil_iff (hsteps : scope.steps = .ok steps) :
    check r env scope = .ok [] ↔ r.Legible steps ∧ ∀ p : Place, p.Obeys r steps := by
  constructor
  · intro h
    obtain ⟨hlegible, hlists⟩ := lists_of_check hsteps h
    refine ⟨hlegible, fun p => ?_⟩
    by_contra hp
    obtain ⟨e, he, -⟩ := (hlists.mem_iff p).mpr hp
    cases he
  · rintro ⟨hlegible, hobeys⟩
    obtain ⟨found, hfound, hlists⟩ := check_eq_ok env hsteps hlegible
    have hnone : found = [] := by
      refine List.eq_nil_iff_forall_not_mem.mpr fun e he => ?_
      obtain ⟨p, hp⟩ := hlists.path e he
      exact (hlists.mem_iff p).mp ⟨e, he, hp⟩ (hobeys p)
    rw [hfound, hnone]

/-- Findings are under the path of a place exactly when the place is not as asked. -/
theorem check_tells {found : List Invalid} (h : check r env scope = .ok found) :
    ∃ steps, scope.steps = .ok steps ∧
      (∀ p : Place, (∃ e ∈ found, e.field = p.path) ↔ ¬p.Obeys r steps) ∧
      ∀ e ∈ found, e.environment = env ∧ ∃ p : Place, e.field = p.path := by
  obtain ⟨steps, hsteps⟩ := exists_steps_of_check h
  obtain ⟨-, hlists⟩ := lists_of_check hsteps h
  exact ⟨steps, hsteps, hlists.mem_iff, fun e he => ⟨hlists.env_eq e he, hlists.path e he⟩⟩

/-- A record with faults of many kinds: decimals out of range and apart, crossed margins,
a reserve of zero, a pair of one asset, an asset listed twice. -/
def faulty : Record where
  priceFeed := ⟨5, none⟩
  engine := ⟨6, "1000001", "1000002", "", none, none, none⟩
  vamm := ⟨-1, "USDC", "USDC", "1200", "0", 0, "99999999", "0x", "0", some "feed"⟩
  assets := [⟨"usd", none, 6⟩, ⟨"eth", none, 19⟩, ⟨"usd", none, 6⟩]

theorem check_tells_of_faulty :
    ∃ found, check faulty (some "main") (.step .vamm) = .ok found ∧
      found.map Invalid.field = ([.vammDecimals, .priceFeedDecimals, .initialMargin,
        .maintenanceMargin, .liquidationFee, .spread, .maintenanceMargin, .fundingPeriod,
        .baseAsset, .assetDecimals 1, .symbol 2, .baseReserve] : List Place).map path ∧
      ∃ steps, (Scope.step .vamm).steps = .ok steps ∧
        (∀ p : Place, (∃ e ∈ found, e.field = p.path) ↔ ¬p.Obeys faulty steps) ∧
        ∀ e ∈ found, e.environment = some "main" ∧ ∃ p : Place, e.field = p.path := by
  obtain ⟨found, hfound⟩ : ∃ found, check faulty (some "main") (.step .vamm) = .ok found :=
    ⟨_, rfl⟩
  refine ⟨found, hfound, ?_, check_tells hfound⟩
  cases hfound
  decide

/-- A check comes to findings exactly where numbers are legible; what it breaks off on
otherwise is a number of too many digits. -/
theorem check_ok_iff (r : Record) (env : Option String) (hsteps : scope.steps = .ok steps) :
    ((∃ found, check r env scope = .ok found) ↔ r.Legible steps) ∧
      ∀ e, check r env scope = .error e → e.IsTooLong := by
  constructor
  · constructor
    · rintro ⟨found, hfound⟩
      exact (lists_of_check hsteps hfound).1
    · intro hlegible
      obtain ⟨found, hfound, -⟩ := check_eq_ok env hsteps hlegible
      exact ⟨found, hfound⟩
  · intro e he
    by_cases hlegible : r.Legible steps
    · obtain ⟨found, hfound, -⟩ := check_eq_ok env hsteps hlegible
      rw [hfound] at he
      cases he
    · obtain ⟨e', he', hlong⟩ := check_eq_error env hsteps hlegible
      rw [he'] at he
      cases he
      exact hlong

/-- A record whose toll is zero, written with as many digits. -/
def zeros (digits : Nat) : Record where
  priceFeed := ⟨6, none⟩
  engine := ⟨6, "62500", "62500", "12500", none, none, none⟩
  vamm := ⟨6, "USDC", "ETH", "1200", "1", 3600, String.ofList (List.replicate digits '0'), "0", "0",
    none⟩
  assets := []

theorem check_ok_iff_of_zeros :
    (Scope.everything).steps = .ok Step.order ∧
      ((∃ found, check (zeros 1) (some "main") .everything = .ok found) ↔
        (zeros 1).Legible Step.order) ∧
      ∀ e, check (zeros 1) (some "main") .everything = .error e → e.IsTooLong :=
  ⟨rfl, check_ok_iff (zeros 1) (some "main") rfl⟩

theorem isNumeral_zeros {digits : Nat} (h : digits ≠ 0) :
    IsNumeral (String.ofList (List.replicate digits '0')) := by
  constructor
  · simpa [← String.toList_eq_nil_iff] using h
  · intro c hc
    rw [String.toList_ofList] at hc
    rw [List.eq_of_mem_replicate hc]
    decide

theorem not_legible_zeros {digits : Nat} (h : Numeral.digitLimit < digits) (steps : List Step) :
    ¬(zeros digits).Legible steps := by
  intro hlegible
  have hlength := hlegible.numerals (String.ofList (List.replicate digits '0'))
    (by simp [Record.numerals, zeros]) (isNumeral_zeros (Nat.ne_zero_of_lt h))
  rw [String.length_ofList, List.length_replicate] at hlength
  exact Nat.not_le.mpr h hlength

theorem ofJson_toJson_zeros (digits : Nat) :
    Record.ofJson (zeros digits).toJson = .ok (zeros digits) := by
  have hproper : ∀ value ∈ (zeros digits).values, value.2.IsProper := of_decide_eq_true rfl
  exact Record.ofJson_toJson hproper

/-- A record of which a check says nothing, though it can be read. -/
theorem check_zeros_ne_ok :
    Record.ofJson (zeros 4301).toJson = .ok (zeros 4301) ∧
      ∀ found, check (zeros 4301) (some "main") .template ≠ .ok found := by
  refine ⟨ofJson_toJson_zeros 4301, fun found hfound => ?_⟩
  have hlong : Numeral.digitLimit < 4301 := by decide
  exact not_legible_zeros hlong [] (lists_of_check rfl hfound).1

end PerpRollout.Rules
