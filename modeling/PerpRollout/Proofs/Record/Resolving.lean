import PerpRollout.Proofs.Ledger.Replay
import PerpRollout.Proofs.Plan.Addresses
import PerpRollout.Proofs.Record.Normal

/-!
# Laws of resolving

A call that resolves a module changes one field of one section (`SameBut`), and nothing at
all when the slot holds the address already. Of calls one after the other only the last
address of each module counts: the record after them has that address in the slot, or what
was there before if no call was about the module (`address_setAll`). So calls in any order
and number make the same record when they agree on the last addresses, and leave the same
slots empty (`withAddress_laws`).
-/

namespace PerpRollout

/-! ## The names of a module -/

namespace Module

/-- The text is a name with any of its letters in upper case. -/
def Cased (text name : String) : Prop :=
  List.Forall₂ (fun c d => c = d ∨ c = d.toUpper) text.toList name.toList

instance (text name : String) : Decidable (Cased text name) :=
  inferInstanceAs (Decidable (List.Forall₂ _ _ _))

/-- The characters of the names of modules and of their fields. -/
def alphabet : List Char := "abcdefghijklmnopqrstuvwxyz_".toList

theorem mem_alphabet {m : Module} {name : String} (h : name ∈ [m.name, m.field]) :
    ∀ d ∈ name.toList, d ∈ alphabet := by
  have hall : name.toList.all (· ∈ alphabet) = true := by
    revert name
    cases m <;> decide
  simpa only [List.all_eq_true, decide_eq_true_eq] using hall

/-- A letter in upper case is read as the letter, and no character of a name is blank. -/
theorem lowerAscii_of_cased {c d : Char} (hd : d ∈ alphabet) (h : c = d ∨ c = d.toUpper) :
    Text.lowerAscii c = d ∧ Text.isBlank c = false := by
  have hall : (alphabet.all fun d => [d, d.toUpper].all fun c =>
      Text.lowerAscii c = d ∧ Text.isBlank c = false) = true := by
    decide
  simp only [List.all_eq_true, decide_eq_true_eq] at hall
  exact hall d hd c (by simpa using h)

theorem spelling_of_cased {text name : String} (halphabet : ∀ d ∈ name.toList, d ∈ alphabet)
    (h : Cased text name) : Text.spelling text = name := by
  have hread : text.toList.map Text.lowerAscii = name.toList ∧
      ∀ c ∈ text.toList, Text.isBlank c = false := by
    unfold Cased at h
    generalize text.toList = cs at h
    generalize name.toList = ds at h halphabet
    induction h with
    | nil => exact ⟨rfl, by simp⟩
    | @cons c d cs ds hc _ ih =>
        obtain ⟨hd, hds⟩ := List.forall_mem_cons.mp halphabet
        obtain ⟨hlower, hblank⟩ := lowerAscii_of_cased hd hc
        obtain ⟨ihlower, ihblank⟩ := ih hds
        exact ⟨by rw [List.map_cons, hlower, ihlower], List.forall_mem_cons.mpr ⟨hblank, ihblank⟩⟩
  rw [Text.spelling, Text.trim_eq_self hread.2, hread.1, String.ofList_toList]

/-- A module goes by its own name and by that of its field, in any case. -/
theorem parse_of_cased {m : Module} {text name : String} (hname : name ∈ [m.name, m.field])
    (h : Cased text name) : parse (.str text) = .ok m := by
  have hkey := spelling_of_cased (mem_alphabet hname) h
  rw [parse_eq_ok_iff]
  change all.find? (fun m => Text.spelling text = m.name || Text.spelling text = m.field) = some m
  rw [hkey]
  clear h hkey
  revert name
  cases m <;> decide

end Module

/-! ## One call -/

namespace Record

open Ledger (lastOf)

variable {m : Module} {a : String} {call : Json × Json}

/-- The records have the same in every place but the slot of the module. -/
structure SameBut (m : Module) (r r' : Record) : Prop where
  slots : ∀ n, n ≠ m → r'.address n = r.address n
  fields : ∀ (s : Section) name, (s, name) ≠ (m.home, m.field) →
    (r'.sectionValues s).lookup name = (r.sectionValues s).lookup name
  assets : r'.assets = r.assets

theorem sameBut_setAddress (r : Record) (m : Module) (a : String) :
    SameBut m r (r.setAddress m a) where
  slots _ hn := r.address_setAddress_of_ne a hn
  fields s name h := by
    cases m <;> cases s <;> first | rfl | skip
    -- What is left is the section that the slot is in, whose other fields are asked for.
    all_goals
      simp only [Module.home, Module.field, Module.name, ne_eq, Prod.mk.injEq, true_and] at h
      simp [setAddress, sectionValues, PriceFeed.values, Engine.values, Vamm.values,
        List.lookup_cons, beq_false_of_ne h]
  assets := by
    cases m <;> rfl

theorem Resolves.result_withAddress (h : Resolves call m a) (r : Record) :
    (r.withAddress call.1 call.2).result = .ok (r.setAddress m a) :=
  result_withAddress_eq_ok_iff.mpr ⟨m, a, h.1, h.2.1, h.2.2, rfl⟩

theorem setAddress_eq_self_iff {r : Record} : r.setAddress m a = r ↔ r.address m = some a := by
  constructor
  · intro h
    rw [← address_setAddress_self r m a, h]
  · exact setAddress_eq_self

/-- A call about a module with anything but an address is refused at the module's slot. -/
theorem exists_result_withAddress_eq_error {module v : Json} (hm : Module.parse module = .ok m)
    (hv : ∀ a, v = .str a → ¬IsAddress a) (r : Record) :
    ∃ reason, (r.withAddress module v).result = .error (.invalid ⟨m.path, none, reason⟩) := by
  have hcall : (r.withAddress module v).result = (r.resolve m v).result := by
    rw [withAddress, Logged.result_bind, Logged.result_liftM, hm]
    rfl
  rw [hcall]
  cases h : (r.resolve m v).result with
  | ok r' =>
      obtain ⟨a, rfl, ha, -⟩ := result_resolve_eq_ok_iff.mp h
      exact absurd ha (hv a rfl)
  | error e =>
      obtain ⟨-, fault, rfl⟩ := result_resolve_eq_error h
      exact ⟨_, rfl⟩

/-! ## Calls one after the other -/

variable {calls : List (Json × Json)} {steps steps' : List (Module × String)}

/-- Makes the calls one after the other, each on the record that the one before gave. -/
def withAddresses (r : Record) (calls : List (Json × Json)) : Logged Record :=
  calls.foldlM (fun r call => r.withAddress call.1 call.2) r

/-- The calls resolve these modules to these addresses, one by one. -/
def ResolveAll (calls : List (Json × Json)) (steps : List (Module × String)) : Prop :=
  List.Forall₂ (fun call step => Resolves call step.1 step.2) calls steps

theorem ResolveAll.result_withAddresses (h : ResolveAll calls steps) (r : Record) :
    (r.withAddresses calls).result = .ok (r.setAll steps) := by
  unfold ResolveAll at h
  induction h generalizing r with
  | nil => rfl
  | @cons call step calls steps hcall _ ih =>
      rw [withAddresses, List.foldlM_cons, Logged.result_bind, hcall.result_withAddress]
      exact ih (r.setAddress step.1 step.2)

theorem address_fill (r : Record) (addresses : Module → Option String) (m : Module) :
    (Ledger.fill r addresses).address m = (addresses m).or (r.address m) := by
  cases m <;> rfl

/-- A slot holds the last address for its module, or what it held if there is none. -/
theorem address_setAll (r : Record) (steps : List (Module × String)) (m : Module) :
    (r.setAll steps).address m = (lastOf m steps).or (r.address m) := by
  rw [Ledger.setAll_eq_fill, address_fill]

theorem lastOf_eq_none_iff : lastOf m steps = none ↔ m ∉ steps.map Prod.fst := by
  simp only [lastOf, Option.map_eq_none_iff, List.getLast?_eq_none_iff, List.filter_eq_nil_iff,
    List.mem_map, decide_eq_true_eq, not_exists, not_and]

theorem setAll_eq_of_lastOf (h : ∀ m, lastOf m steps = lastOf m steps') (r : Record) :
    r.setAll steps = r.setAll steps' := by
  rw [Ledger.setAll_eq_fill, Ledger.setAll_eq_fill, funext h]

/-- The slots that are left empty are those that no step is about, of the empty ones. -/
theorem unresolved_setAll (r : Record) (steps : List (Module × String)) :
    (r.setAll steps).unresolved =
      Module.all.filter fun m => r.address m = none ∧ m ∉ steps.map Prod.fst := by
  refine List.filter_congr fun m _ => ?_
  rw [isResolved, address_setAll, Bool.eq_iff_iff]
  simp only [Bool.not_eq_true', Option.isSome_eq_false_iff, Option.isNone_iff_eq_none,
    Option.or_eq_none_iff, lastOf_eq_none_iff, decide_eq_true_eq, and_comm]

/-- What resolving does, call by call and over any calls. A module is named by its name or
its field in any case. Resolving it to an address puts the address into its slot and changes
nothing else; the record stays the same exactly if the address was there. What is no address
is refused at the slot. Two lists of calls that agree on the last address of each module make
the same record, whose empty slots are those that were empty and that no call is about. -/
theorem withAddress_laws (r : Record) :
    (∀ (m : Module) (text : String), (∃ name ∈ [m.name, m.field], Module.Cased text name) →
      Module.parse (.str text) = .ok m) ∧
    (∀ call m a, Resolves call m a → ∃ r', (r.withAddress call.1 call.2).result = .ok r' ∧
      r'.address m = some a ∧ SameBut m r r' ∧ (r' = r ↔ r.address m = some a)) ∧
    (∀ module v m, Module.parse module = .ok m → (∀ a, v = .str a → ¬IsAddress a) →
      ∃ reason, (r.withAddress module v).result = .error (.invalid ⟨m.path, none, reason⟩)) ∧
    ∀ calls calls' steps steps', ResolveAll calls steps → ResolveAll calls' steps' →
      (∀ m, lastOf m steps = lastOf m steps') →
      ∃ r', (r.withAddresses calls).result = .ok r' ∧ (r.withAddresses calls').result = .ok r' ∧
        r'.unresolved = Module.all.filter fun m =>
          r.address m = none ∧ m ∉ steps.map Prod.fst ∧ m ∉ steps'.map Prod.fst := by
  refine ⟨?_, ?_, ?_, ?_⟩
  · rintro m text ⟨name, hname, hcased⟩
    exact Module.parse_of_cased hname hcased
  · intro call m a hcall
    exact ⟨_, hcall.result_withAddress r, r.address_setAddress_self m a, sameBut_setAddress r m a,
      setAddress_eq_self_iff⟩
  · intro module v m hm hv
    exact exists_result_withAddress_eq_error hm hv r
  · intro calls calls' steps steps' hcalls hcalls' hlast
    have hmem (m : Module) : m ∉ steps.map Prod.fst ↔ m ∉ steps'.map Prod.fst := by
      rw [← lastOf_eq_none_iff, hlast, lastOf_eq_none_iff]
    refine ⟨r.setAll steps, hcalls.result_withAddresses r, ?_, ?_⟩
    · rw [setAll_eq_of_lastOf hlast]
      exact hcalls'.result_withAddresses r
    · rw [unresolved_setAll]
      refine List.filter_congr fun m _ => ?_
      simp only [← hmem m, and_self]

/-- Fee pool and price feed are resolved, the fee pool twice in one of two ways to go about it;
the calls differ in the names, in the case of their letters and in the order. -/
theorem withAddress_laws_tight :
    Module.parse (.str "Oracle_HUB_contract") = .ok .oracleHub ∧
    (∃ r', (tight.withAddress (.str " fee_pool") (.str "pool")).result = .ok r' ∧
      r'.address .feePool = some "pool" ∧ SameBut .feePool tight r' ∧
      (r' = tight ↔ tight.address .feePool = some "pool")) ∧
    (∃ reason, (tight.withAddress (.str "pricefeed") (.str "a b")).result =
      .error (.invalid ⟨"vammInitMsg.pricefeed", none, reason⟩)) ∧
    ∃ r', (tight.withAddresses [(.str "fee_pool", .str "old"), (.str "PriceFeed", .str "feed"),
        (.str "FEE_POOL", .str "pool")]).result = .ok r' ∧
      (tight.withAddresses [(.str "fee_pool", .str "pool"),
        (.str "pricefeed", .str "feed")]).result = .ok r' ∧
      r'.unresolved = [.oracleHub, .insuranceFund, .eligibleCollateral] := by
  obtain ⟨hparse, hcall, herror, hcalls⟩ := withAddress_laws tight
  refine ⟨?_, ?_, ?_, ?_⟩
  · exact hparse .oracleHub _ ⟨"oracle_hub_contract", by decide, by decide⟩
  · exact hcall (.str " fee_pool", .str "pool") .feePool "pool"
      ⟨Module.parse_eq_ok_iff.mpr (by decide), rfl, by decide⟩
  · refine herror (.str "pricefeed") (.str "a b") .pricefeed (Module.parse_name .pricefeed) ?_
    intro a ha
    cases ha
    decide
  · refine hcalls _ _ [(.feePool, "old"), (.pricefeed, "feed"), (.feePool, "pool")]
      [(.feePool, "pool"), (.pricefeed, "feed")] ?_ ?_ ?_
    · refine .cons ⟨Module.parse_name .feePool, rfl, by decide⟩
        (.cons ⟨?_, rfl, by decide⟩ (.cons ⟨?_, rfl, by decide⟩ .nil))
      all_goals exact Module.parse_eq_ok_iff.mpr (by decide)
    · exact .cons ⟨Module.parse_name .feePool, rfl, by decide⟩
        (.cons ⟨Module.parse_name .pricefeed, rfl, by decide⟩ .nil)
    · intro m
      cases m <;> rfl

end Record

end PerpRollout
